import HarnessConformance.LiveSession
import HarnessConformance.Lib.JsonSize

/-! # Small plain documents are accepted

The records the program builds itself hold identifiers, digests, instants and fixed names. Every
one of these is plain ASCII text of bounded length, so such a record passes the value check and
the bounded walk whatever it holds. -/

namespace HarnessConformance
open Lib Lib.Outcome Lib.Lines Lib.Utf8 Lib.Json
set_option autoImplicit false

/-! ## Plain texts -/

theorem isDigit_le {c : Char} (h : c.isDigit = true) : '0' ≤ c ∧ c ≤ '9' := by
  rw [Char.isDigit, Bool.and_eq_true, decide_eq_true_eq, decide_eq_true_eq] at h
  exact h

theorem isPlainChar_digit {c : Char} (h : c.isDigit = true) : isPlainChar c = true :=
  isPlainChar_of_le (isDigit_le h) (by decide) (by decide) (by decide)

theorem isPlainChar_lower {c : Char} (h : 'a' ≤ c ∧ c ≤ 'z') : isPlainChar c = true :=
  isPlainChar_of_le h (by decide) (by decide) (by decide)

theorem isPlainChar_hex {c : Char} (h : (c.isDigit || ('a' ≤ c && c ≤ 'f')) = true) : isPlainChar c = true := by
  rw [Bool.or_eq_true, Bool.and_eq_true, decide_eq_true_eq, decide_eq_true_eq] at h
  rcases h with h | h
  · exact isPlainChar_digit h
  · exact isPlainChar_of_le h (by decide) (by decide) (by decide)

theorem over_char {c : Char} (h : isPlainChar c = true) : (Regex.char c).Over fun c => isPlainChar c = true := by
  intro d hd
  rw [beq_iff_eq] at hd
  rwa [hd]

theorem over_times {r : Regex} (h : r.Over fun c => isPlainChar c = true) (n : ℕ) :
    (Regex.times r n).Over fun c => isPlainChar c = true := by
  induction n with
  | zero => trivial
  | succ n ih => exact ⟨h, ih⟩

theorem isPlainChar_alphanum {c : Char} (h : c.isAlphanum = true) : isPlainChar c = true := by
  rw [Char.isAlphanum, Bool.or_eq_true, Char.isAlpha, Bool.or_eq_true] at h
  rcases h with (h | h) | h
  · have hupper : 'A' ≤ c ∧ c ≤ 'Z' := of_decide_eq_true h
    exact isPlainChar_of_le hupper (by decide) (by decide) (by decide)
  · rw [Char.isLower, Bool.and_eq_true, decide_eq_true_eq, decide_eq_true_eq] at h
    exact isPlainChar_lower h
  · exact isPlainChar_digit h

theorem over_upTo {r : Regex} (h : r.Over fun c => isPlainChar c = true) (n : ℕ) :
    (Regex.upTo r n).Over fun c => isPlainChar c = true := by
  induction n with
  | zero => trivial
  | succ n ih => exact ⟨trivial, h, ih⟩

namespace Text

theorem digest_length (d : Digest) : d.text.length ≤ 71 :=
  (Regex.fullmatch_iff.mp d.valid).length_le (by decide)

theorem digest_plain (d : Digest) : isPlain d.text = true := by
  have hhex : hexDigit.Over fun c => isPlainChar c = true := fun c hc => isPlainChar_hex hc
  refine isPlain_of_over (r := digestPattern) ⟨?_, over_times hhex 64⟩ d.valid
  exact ⟨over_char (by decide), over_char (by decide), over_char (by decide), over_char (by decide), over_char (by decide),
    over_char (by decide), over_char (by decide), trivial⟩

theorem id_length (i : Identifier) : i.text.length ≤ 128 := by
  have h := i.valid
  rw [Bool.and_eq_true, decide_eq_true_eq] at h
  exact h.1

theorem id_plain (i : Identifier) : isPlain i.text = true := by
  have h := i.valid
  rw [Bool.and_eq_true] at h
  have hlower (c : Char) (hc : (('a' ≤ c && c ≤ 'z') || c.isDigit) = true) : isPlainChar c = true := by
    rw [Bool.or_eq_true, Bool.and_eq_true, decide_eq_true_eq, decide_eq_true_eq] at hc
    exact hc.elim isPlainChar_lower isPlainChar_digit
  have hfirst (c : Char) (hc : ('a' ≤ c && c ≤ 'z') = true) : isPlainChar c = true := by
    rw [Bool.and_eq_true, decide_eq_true_eq, decide_eq_true_eq] at hc
    exact isPlainChar_lower hc
  have hseparator (c : Char) (hc : (c == '.' || c == '-') = true) : isPlainChar c = true := by
    rw [Bool.or_eq_true, beq_iff_eq, beq_iff_eq] at hc
    rcases hc with rfl | rfl <;> decide
  exact isPlain_of_over (r := idPattern) ⟨hfirst, hlower, ⟨hseparator, hlower, hlower⟩, trivial⟩ h.2

theorem time_pattern (t : TimeText) : timePattern.fullmatch t.text = true := by
  have h := t.valid
  unfold instantOf at h
  split at h
  · assumption
  · cases h

theorem time_length (t : TimeText) : t.text.length ≤ 27 :=
  (Regex.fullmatch_iff.mp t.time_pattern).length_le (by decide)

theorem time_plain (t : TimeText) : isPlain t.text = true := by
  have hdigit : digit.Over fun c => isPlainChar c = true := fun c hc => isPlainChar_digit hc
  have hdigits (n : ℕ) := over_times hdigit n
  refine isPlain_of_over (r := timePattern) ?_ t.time_pattern
  refine ⟨hdigits 4, over_char (by decide), hdigits 2, over_char (by decide), hdigits 2, over_char (by decide), hdigits 2,
    over_char (by decide), hdigits 2, over_char (by decide), hdigits 2, ⟨trivial, over_char (by decide), hdigits 1, ?_⟩,
    over_char (by decide), trivial⟩
  exact ⟨trivial, hdigit, trivial, hdigit, trivial, hdigit, trivial, hdigit, trivial, hdigit, trivial⟩

end Text

theorem length_canonicalText (v : Json) : (canonicalText v).length = v.width := by
  rw [canonicalText, length_encode, width_canon]

/-- A member of a dictionary, read off its sorted form. -/
theorem item_canon {v w : Json} {k : String} (hwf : v.Wf) (h : v.get? k = some w) : item v.canon k = .ok w.canon := by
  rw [item_eq_ok, get?_canon hwf, h]
  rfl

theorem closed_canon_obj {members : Members} {fields : List String} (h : keys members = fields) :
    closed (Json.obj members).canon fields = .ok () :=
  closed_canon.mpr (closed_eq_ok.mpr ⟨members, rfl, fun k => by rw [h]⟩)

/-! ## The bounded walk -/

namespace LiveSession

/-- What `bounded` does to a value whose text fits the budget. -/
def Fits (maximum depth : ℕ) (v : Json) : Prop := ∀ remaining : ℤ, remaining ≤ maximum → v.width ≤ remaining →
  ∃ r, bounded maximum depth remaining v = .ok r ∧ remaining - v.width ≤ r ∧ r ≤ remaining

theorem boundedItems_of_width {maximum depth : ℕ} {items : List Json} (h : ∀ v ∈ items, Fits maximum depth v)
    (remaining : ℤ) (hmaximum : remaining ≤ maximum) (hwidth : widthItems items ≤ remaining) :
    ∃ r, boundedItems maximum depth remaining items = .ok r ∧ remaining - widthItems items ≤ r ∧ r ≤ remaining := by
  induction items generalizing remaining with
  | nil => exact ⟨remaining, rfl, by simp [widthItems], le_rfl⟩
  | cons v vs ih =>
    rw [List.forall_mem_cons] at h
    rw [widthItems] at hwidth ⊢
    push_cast at hwidth ⊢
    obtain ⟨r, hr, hlow, hhigh⟩ := h.1 remaining hmaximum (by omega)
    obtain ⟨t, ht, hlow', hhigh'⟩ := ih h.2 r (hhigh.trans hmaximum) (by omega)
    exact ⟨t, bind_eq_ok.mpr ⟨r, hr, ht⟩, by omega, by omega⟩

theorem boundedMembers_of_width {maximum depth : ℕ} {members : Members} (hdepth : members ≠ [] → depth ≤ maxDepth)
    (h : ∀ m ∈ members, Fits maximum depth m.2) (remaining : ℤ) (hmaximum : remaining ≤ maximum)
    (hwidth : widthMembers members ≤ remaining) :
    ∃ r, boundedMembers maximum depth remaining members = .ok r ∧ remaining - widthMembers members ≤ r ∧ r ≤ remaining := by
  induction members generalizing remaining with
  | nil => exact ⟨remaining, rfl, by simp [widthMembers], le_rfl⟩
  | cons m ms ih =>
    obtain ⟨k, v⟩ := m
    rw [List.forall_mem_cons] at h
    rw [widthMembers] at hwidth ⊢
    push_cast at hwidth ⊢
    have hkey := length_le_textWidth k
    obtain ⟨r, hr, hlow, hhigh⟩ := h.1 (remaining - (k.length + 2)) (by omega) (by dsimp only; omega)
    obtain ⟨t, ht, hlow', hhigh'⟩ := ih (fun _ => hdepth (List.cons_ne_nil _ _)) h.2 r (by omega) (by dsimp only at hlow; omega)
    refine ⟨t, ?_, by dsimp only at hlow; omega, by omega⟩
    simp only [boundedMembers, bind_eq_ok, require_eq_ok, exists_const]
    exact ⟨hdepth (List.cons_ne_nil _ _), by omega, by omega, r, hr, ht⟩

end LiveSession

/-! ## The value check -/

variable [Runtime]

omit [Runtime] in
theorem length_encodeText_plain {s : String} (h : isPlain s = true) : (encodeText s.toList).length = s.length := by
  rw [isPlain, List.all_eq_true] at h
  rw [← String.length_toList, encodeText, List.length_flatMap]
  have hone : s.toList.map (fun c => (String.utf8EncodeChar c).length) = s.toList.map fun _ => 1 := by
    refine List.map_congr_left fun c hc => ?_
    have hc := h c hc
    simp only [isPlainChar, Bool.and_eq_true, decide_eq_true_eq] at hc
    rw [String.length_utf8EncodeChar, Char.utf8Size_eq_one_iff, UInt32.le_iff_toNat_le]
    exact Nat.le_of_lt_succ (hc.1.1.2.trans (by decide))
  rw [hone, List.map_const', List.sum_replicate, smul_eq_mul, mul_one]

/-- A plain text is only refused for its length. -/
theorem textValid_plain_iff {s : String} (h : isPlain s = true) : TextValid s ↔ s.length ≤ maxFileBytes := by
  rw [TextValid, length_encodeText_plain h]
  refine and_iff_right (Runtime.normalize_ascii s fun c hc => ?_)
  rw [isPlain, List.all_eq_true] at h
  have hc := h c hc
  simp only [isPlainChar, Bool.and_eq_true, decide_eq_true_eq] at hc
  exact hc.1.1.2.trans (by decide)

theorem textValid_plain {s : String} (h : isPlain s = true) (hlength : s.length ≤ 1048576) : TextValid s :=
  (textValid_plain_iff h).mpr (hlength.trans (by decide))

/-- A plain value that is neither long nor deep passes the check. -/
theorem validAt_plain {v : Json} (h : v.Plain) {depth : ℕ} (hheight : v.height + depth ≤ maxDepth)
    (hwidth : v.width ≤ maxCollectionItems) : ValidAt depth v := by
  have hsmall {n : ℕ} (hn : n ≤ maxCollectionItems) : n ≤ 1048576 := hn.trans (by decide)
  induction v generalizing depth with
  | null => exact checkDepth_eq_ok.mpr ((Nat.le_add_left _ _).trans hheight)
  | bool b => exact checkDepth_eq_ok.mpr ((Nat.le_add_left _ _).trans hheight)
  | int n =>
    simp only [ValidAt, validateValue, bind_eq_ok, checkDepth_eq_ok, conform_eq_ok, exists_const]
    exact ⟨(Nat.le_add_left _ _).trans hheight, h⟩
  | str s =>
    rw [width] at hwidth
    have hlength := length_le_textWidth s
    exact validAt_str.mpr ⟨(Nat.le_add_left _ _).trans hheight, textValid_plain h (hsmall (by omega))⟩
  | arr items ih =>
    rw [plain_arr] at h
    rw [height] at hheight
    rw [width, widthItems_eq] at hwidth
    refine validAt_arr.mpr ⟨(Nat.le_add_left _ _).trans hheight, by omega, fun v hv => ih v hv (h v hv) ?_ ?_⟩
    · have := heightItems_le.mp le_rfl v hv
      omega
    · have := List.single_le_sum (by simp) _ (List.mem_map_of_mem (f := width) hv)
      omega
  | obj members ih =>
    rw [plain_obj] at h
    rw [height] at hheight
    rw [width, widthMembers_eq] at hwidth
    refine validAt_obj.mpr ⟨(Nat.le_add_left _ _).trans hheight, by omega, fun m hm => ?_⟩
    have hdeep := heightMembers_le.mp le_rfl m hm
    have hmember := List.single_le_sum (by simp) _
      (List.mem_map_of_mem (f := fun m : String × Json => textWidth m.1 + 2 + width m.2) hm)
    have hlength := length_le_textWidth m.1
    exact ⟨by omega, textValid_plain (h m hm).1 (hsmall (by omega)), ih m hm (h m hm).2 (by omega) (by omega)⟩

namespace LiveSession

/-- The walk charges at most the bytes of the text, so a text within the budget is not refused. -/
theorem bounded_of_width {v : Json} {depth valid maximum : ℕ} (hvalid : ValidAt valid v)
    (hheight : v.height + depth ≤ maxDepth) : Fits maximum depth v := by
  induction v generalizing depth valid with
  | null =>
    intro remaining _ hwidth
    rw [width] at hwidth ⊢
    refine ⟨remaining - 1, ?_, by omega, by omega⟩
    simp only [bounded, bind_eq_ok, require_eq_ok, exists_const, pure_eq_ok, and_true]
    exact ⟨(Nat.le_add_left _ _).trans hheight, by omega⟩
  | bool b =>
    intro remaining _ hwidth
    have hpos : 1 ≤ width (.bool b) := by cases b <;> decide
    refine ⟨remaining - 1, ?_, by omega, by omega⟩
    simp only [bounded, bind_eq_ok, require_eq_ok, exists_const, pure_eq_ok, and_true]
    exact ⟨(Nat.le_add_left _ _).trans hheight, by omega⟩
  | int n =>
    intro remaining _ hwidth
    simp only [ValidAt, validateValue, bind_eq_ok, checkDepth_eq_ok, conform_eq_ok, exists_const] at hvalid
    have hpos := one_le_width_int n
    have hrange := hvalid.2
    rw [maxSafeInteger] at hrange
    refine ⟨remaining - 1, ?_, by omega, by omega⟩
    simp only [bounded, bind_eq_ok, require_eq_ok, exists_const, pure_eq_ok, and_true]
    exact ⟨(Nat.le_add_left _ _).trans hheight, by omega, by omega⟩
  | str s =>
    intro remaining hmaximum hwidth
    have hlength := length_le_textWidth s
    rw [width] at hwidth ⊢
    push_cast at hwidth ⊢
    refine ⟨remaining - (s.length + 2), ?_, by omega, by omega⟩
    simp only [bounded, bind_eq_ok, require_eq_ok, exists_const, pure_eq_ok, and_true]
    exact ⟨(Nat.le_add_left _ _).trans hheight, by omega, by omega⟩
  | arr items ih =>
    intro remaining hmaximum hwidth
    obtain ⟨-, hcount, hitems⟩ := validAt_arr.mp hvalid
    rw [height] at hheight
    rw [width] at hwidth ⊢
    push_cast at hwidth ⊢
    have hfits : ∀ v ∈ items, Fits maximum (depth + 1) v := fun v hv =>
      ih v hv (hitems v hv) (by have := heightItems_le.mp le_rfl v hv; omega)
    obtain ⟨r, hr, hlow, hhigh⟩ := boundedItems_of_width hfits
      (remaining - (2 + (items.length - 1 : ℕ))) (by omega) (by omega)
    refine ⟨r, ?_, by omega, by omega⟩
    simp only [bounded, bind_eq_ok, require_eq_ok, exists_const, pure_eq_ok]
    exact ⟨(Nat.le_add_left _ _).trans hheight, hcount, by omega, r, hr, by omega, rfl⟩
  | obj members ih =>
    intro remaining hmaximum hwidth
    obtain ⟨-, hcount, hmembers⟩ := validAt_obj.mp hvalid
    rw [height] at hheight
    rw [width] at hwidth ⊢
    push_cast at hwidth ⊢
    have hdeep : ∀ m ∈ members, m.2.height + (depth + 1) ≤ maxDepth := by
      intro m hm
      have := heightMembers_le.mp le_rfl m hm
      omega
    have hdepth : members ≠ [] → depth + 1 ≤ maxDepth := by
      intro hne
      obtain ⟨m, ms, rfl⟩ := List.exists_cons_of_ne_nil hne
      exact (Nat.le_add_left _ _).trans (hdeep m List.mem_cons_self)
    have hfits : ∀ m ∈ members, Fits maximum (depth + 1) m.2 := fun m hm => ih m hm (hmembers m hm).2.2 (hdeep m hm)
    obtain ⟨r, hr, hlow, hhigh⟩ := boundedMembers_of_width hdepth hfits
      (remaining - (2 + (members.length - 1 : ℕ) + members.length)) (by omega) (by omega)
    refine ⟨r, ?_, by omega, by omega⟩
    simp only [bounded, bind_eq_ok, require_eq_ok, exists_const, pure_eq_ok]
    exact ⟨(Nat.le_add_left _ _).trans hheight, hcount, by omega, r, hr, by omega, rfl⟩

/-- A valid dictionary whose text fits is accepted and comes back with its members sorted. -/
theorem dataDocument_of_width {v : Json} {maximum : ℕ} (hmaximum : maximum = maxSessionBytes ∨ maximum = maxResponseBytes)
    (hobject : isObject v = true) (hwf : v.Wf) (hvalid : Valid v) (hheight : v.height ≤ maxDepth)
    (hwidth : v.width ≤ maximum) : dataDocument (.data v) maximum = .ok v.canon := by
  have hfits : Fits maximum 0 v := bounded_of_width hvalid hheight
  obtain ⟨r, hr, -, -⟩ := hfits maximum le_rfl (Int.ofNat_le.mpr hwidth)
  have hlength : (canonicalText v).length ≤ maximum := (length_canonicalText v).trans_le hwidth
  have hread : requireCanonicalDocument (canonicalText v) = .ok v.canon := by
    refine requireCanonicalDocument_eq_ok.mpr ⟨canonical_canon hwf hvalid, .inl (canonicalText_canon v).symm, ?_⟩
    refine hlength.trans ?_
    rcases hmaximum with rfl | rfl <;> decide
  simp only [dataDocument, bind_eq_ok, malformed_eq_ok, require_eq_ok, exists_const]
  exact ⟨hmaximum, v, rfl, r, hr, hobject, _, canonicalBytes_eq_ok.mpr ⟨hvalid, rfl⟩, hlength, hread⟩

end LiveSession

/-! ## Slim dictionaries -/

/-- A member with a short plain key and a plain value that is neither wide nor high. -/
structure Slim (wide high : ℕ) (m : String × Json) : Prop where
  key : isPlain m.1 = true
  short : m.1.length ≤ 32
  plain : m.2.Plain
  width : m.2.width ≤ wide
  height : m.2.height ≤ high

omit [Runtime] in
/-- The bounds of a closed member. -/
def isSlim (wide high : ℕ) (m : String × Json) : Bool :=
  (plainText m.1).any (· ≤ 32) && m.2.plainWidth.any (· ≤ wide) && m.2.height ≤ high

omit [Runtime] in
theorem slim_of_isSlim {members : Members} {wide high : ℕ} (h : members.all (isSlim wide high) = true) :
    ∀ m ∈ members, Slim wide high m := by
  intro m hm
  have hmember := List.all_eq_true.mp h m hm
  simp only [isSlim, Bool.and_eq_true, Option.any_eq_true, decide_eq_true_eq] at hmember
  obtain ⟨⟨⟨k, hk, hshort⟩, n, hn, hwidth⟩, hheight⟩ := hmember
  obtain ⟨hkey, rfl⟩ := plainText_eq_some hk
  obtain ⟨hplain, rfl⟩ := plainWidth_eq_some hn
  exact ⟨hkey, (length_le_textWidth _).trans hshort, hplain, hwidth, hheight⟩

omit [Runtime] in
theorem Slim.text {key text : String} {wide : ℕ} (hkey : isPlain key = true ∧ key.length ≤ 32) (htext : isPlain text = true)
    (hwide : text.length + 2 ≤ wide) : Slim wide 0 (key, .str text) := by
  refine ⟨hkey.1, hkey.2, htext, ?_, Nat.zero_le _⟩
  rw [Json.width, textWidth_plain htext]
  exact hwide

omit [Runtime] in
theorem Slim.literal {key : String} {chars : List Char} {wide : ℕ} (hkey : isPlain key = true ∧ key.length ≤ 32)
    (htext : chars.all isPlainChar = true) (hwide : chars.length + 2 ≤ wide) :
    Slim wide 0 (key, .str (String.ofList chars)) :=
  .text hkey (isPlain_ofList htext) (String.length_ofList ▸ hwide)

omit [Runtime] in
theorem Slim.mono {wide wide' high high' : ℕ} {m : String × Json} (h : Slim wide high m) (hw : wide ≤ wide') (hh : high ≤ high') :
    Slim wide' high' m :=
  ⟨h.key, h.short, h.plain, h.width.trans hw, h.height.trans hh⟩

omit [Runtime] in
theorem plain_slim {members : Members} {wide high : ℕ} (h : ∀ m ∈ members, Slim wide high m) : (Json.obj members).Plain :=
  plain_obj.mpr fun m hm => ⟨(h m hm).key, (h m hm).plain⟩

omit [Runtime] in
theorem height_slim {members : Members} {wide high : ℕ} (h : ∀ m ∈ members, Slim wide high m) :
    (Json.obj members).height ≤ high + 1 := by
  rw [height]
  exact heightMembers_le.mpr fun m hm => Nat.succ_le_succ (h m hm).height

omit [Runtime] in
theorem width_slim {members : Members} {wide high : ℕ} (h : ∀ m ∈ members, Slim wide high m) :
    (Json.obj members).width ≤ 2 + members.length * (wide + 36) := by
  have hsum : (members.map fun m => textWidth m.1 + 2 + width m.2).sum ≤ members.length * (wide + 34) := by
    have hle := List.sum_le_card_nsmul (members.map fun m => textWidth m.1 + 2 + width m.2) (wide + 34) ?_
    · rwa [List.length_map, smul_eq_mul] at hle
    · intro n hn
      obtain ⟨m, hm, rfl⟩ := List.mem_map.mp hn
      have hkey := (textWidth_plain (h m hm).key).trans_le (h m hm).short
      have hvalue := (h m hm).width
      omega
  rw [width, widthMembers_eq]
  calc 2 + (members.length - 1) + members.length + (members.map fun m => textWidth m.1 + 2 + width m.2).sum
      ≤ 2 + members.length + members.length + members.length * (wide + 34) := by omega
    _ = 2 + members.length * (wide + 36) := by ring

omit [Runtime] in
theorem Slim.obj {key : String} {members : Members} {wide high n wide' : ℕ} (hkey : isPlain key = true ∧ key.length ≤ 32)
    (h : ∀ m ∈ members, Slim wide high m) (hcount : members.length ≤ n) (hwide : 2 + n * (wide + 36) ≤ wide') :
    Slim wide' (high + 1) (key, .obj members) := by
  refine ⟨hkey.1, hkey.2, plain_slim h, (width_slim h).trans (le_trans ?_ hwide), height_slim h⟩
  exact Nat.add_le_add_left (Nat.mul_le_mul_right _ hcount) 2

omit [Runtime] in
theorem Slim.arr {key : String} {items : List Json} {wide high n wide' : ℕ} (hkey : isPlain key = true ∧ key.length ≤ 32)
    (h : ∀ v ∈ items, v.Plain ∧ v.width ≤ wide ∧ v.height ≤ high) (hcount : items.length ≤ n)
    (hwide : 2 + n * (wide + 1) ≤ wide') : Slim wide' (high + 1) (key, .arr items) := by
  refine ⟨hkey.1, hkey.2, plain_arr.mpr fun v hv => (h v hv).1, ?_, ?_⟩
  · have hsum : (items.map Json.width).sum ≤ items.length * wide := by
      have hle := List.sum_le_card_nsmul (items.map Json.width) wide (List.forall_mem_map.mpr fun v hv => (h v hv).2.1)
      rwa [List.length_map, smul_eq_mul] at hle
    have hmul : items.length * (wide + 1) ≤ n * (wide + 1) := Nat.mul_le_mul_right _ hcount
    rw [Json.width, widthItems_eq]
    rw [Nat.mul_succ] at hmul
    omega
  · rw [Json.height]
    exact heightItems_le.mpr fun v hv => Nat.succ_le_succ (h v hv).2.2

theorem validAt_slim {members : Members} {wide high depth : ℕ} (h : ∀ m ∈ members, Slim wide high m)
    (hcount : members.length ≤ maxCollectionItems) (hwide : wide ≤ maxCollectionItems) (hdepth : high + 1 + depth ≤ maxDepth) :
    ValidAt depth (.obj members) := by
  refine validAt_obj.mpr ⟨by omega, hcount, fun m hm => ⟨by omega, ?_, ?_⟩⟩
  · exact textValid_plain (h m hm).key ((h m hm).short.trans (by decide))
  · have hheight := (h m hm).height
    exact validAt_plain (h m hm).plain (by omega) ((h m hm).width.trans hwide)

/-- Acceptance sees a dictionary only up to the order of its members. -/
theorem LiveSession.dataDocument_slim_canon {value : Json} {members : Members} {maximum wide high : ℕ} (hvalue : value.Wf)
    (hcanon : value.canon = (Json.obj members).canon)
    (hmaximum : maximum = maxSessionBytes ∨ maximum = maxResponseBytes) (h : ∀ m ∈ members, Slim wide high m)
    (hhigh : high < LiveSession.maxDepth)
    (hsize : members.length ≤ maxCollectionItems ∧ wide ≤ maxCollectionItems ∧
      2 + members.length * (wide + 36) ≤ maximum) :
    dataDocument (.data value) maximum = .ok value.canon := by
  have hvalid : Valid (.obj members) := validAt_slim h hsize.1 hsize.2.1 (Nat.le_trans hhigh (by decide))
  refine dataDocument_of_width hmaximum ?_ hvalue ?_ ?_ ?_
  · cases value with
    | obj ms => rfl
    | arr items => simp at hcanon
    | _ => simp [canon] at hcanon
  · rw [Valid, ← validAt_canon, hcanon, validAt_canon]
    exact hvalid
  · rw [← height_canon, hcanon, height_canon]
    exact (height_slim h).trans hhigh
  · rw [← width_canon, hcanon, width_canon]
    exact (width_slim h).trans hsize.2.2

/-- A slim dictionary within the limit is always accepted. -/
theorem LiveSession.dataDocument_slim {members : Members} {maximum wide high : ℕ}
    (hmaximum : maximum = maxSessionBytes ∨ maximum = maxResponseBytes) (hnd : (keys members).Nodup)
    (hwf : ∀ m ∈ members, m.2.Wf) (h : ∀ m ∈ members, Slim wide high m) (hhigh : high < LiveSession.maxDepth)
    (hsize : members.length ≤ maxCollectionItems ∧ wide ≤ maxCollectionItems ∧
      2 + members.length * (wide + 36) ≤ maximum) :
    dataDocument (.data (.obj members)) maximum = .ok (Json.obj members).canon :=
  dataDocument_slim_canon (wf_obj.mpr ⟨hnd, hwf⟩) rfl hmaximum h hhigh hsize

omit [Runtime] in
theorem slim_id {key : String} (hkey : isPlain key = true ∧ key.length ≤ 32) (i : Identifier) : Slim 130 0 (key, .str i.text) :=
  .text hkey i.id_plain (Nat.add_le_add_right i.id_length 2)

omit [Runtime] in
theorem slim_digest {key : String} {wide : ℕ} (hkey : isPlain key = true ∧ key.length ≤ 32) (d : Digest) (hwide : 73 ≤ wide) :
    Slim wide 0 (key, .str d.text) :=
  .text hkey d.digest_plain ((Nat.add_le_add_right d.digest_length 2).trans hwide)

omit [Runtime] in
theorem slim_count {key : String} (hkey : isPlain key = true ∧ key.length ≤ 32) {n : ℕ} (hn : n ≤ 10000000) :
    Slim 40 0 (key, .int n) := by
  refine ⟨hkey.1, hkey.2, ?_, ?_, Nat.zero_le _⟩
  · rw [Plain, Int.natAbs_natCast]
    exact hn.trans (by decide)
  · refine width_int_le (k := 8) ?_
    rw [Int.natAbs_natCast]
    exact hn.trans_lt (by decide)

omit [Runtime] in
theorem slim_time {key : String} (hkey : isPlain key = true ∧ key.length ≤ 32) (t : TimeText) : Slim 130 0 (key, .str t.text) :=
  .text hkey t.time_plain ((Nat.add_le_add_right t.time_length 2).trans (by decide))

omit [Runtime] in
theorem Case.name_short (c : Case) : isPlain c.name = true ∧ c.name.length ≤ 32 := by
  cases c <;> simp only [Case.name] <;> exact shortKey rfl

/-! ## Bindings -/

namespace SessionBinding
open LiveSession

omit [Runtime] in
theorem slim_members (b : SessionBinding) : ∃ members, b.toJson = .obj members ∧ members.length = 11 ∧ keys members = bindingFields ∧
    (∀ m ∈ members, m.2.Wf) ∧ ∀ m ∈ members, Slim 130 0 m := by
  refine ⟨_, rfl, rfl, rfl, by simp [Wf], ?_⟩
  simp only [List.forall_mem_cons]
  exact ⟨slim_id (shortKey rfl) _, slim_id (shortKey rfl) _, slim_id (shortKey rfl) _, slim_id (shortKey rfl) _, slim_id (shortKey rfl) _,
    slim_digest (shortKey rfl) _ (by decide), slim_digest (shortKey rfl) _ (by decide), slim_digest (shortKey rfl) _ (by decide), slim_digest (shortKey rfl) _ (by decide),
    slim_time (shortKey rfl) _, slim_time (shortKey rfl) _, nofun⟩

theorem dataDocument_toJson (b : SessionBinding) : dataDocument (.data b.toJson) maxSessionBytes = .ok b.toJson.canon := by
  obtain ⟨members, hjson, hlength, hkeys, hwf, hslim⟩ := b.slim_members
  rw [hjson]
  refine dataDocument_slim (.inl rfl) (hkeys ▸ by decide) hwf hslim (by decide) ?_
  rw [hlength]
  decide

/-- Every binding validates, whatever it holds. -/
theorem validate_toJson (b : SessionBinding) : validate (.data b.toJson) = .ok b := by
  have field {k s : String} (h : b.toJson.get? k = some (.str s)) : item b.toJson.canon k = .ok (.str s) :=
    item_canon b.wf_toJson h
  simp only [validate, bind_eq_ok, requireId_eq_ok, requireDigest_eq_ok, requireTime_eq_ok]
  refine ⟨_, b.dataDocument_toJson, (), closed_canon_obj rfl, ?_⟩
  refine ⟨_, field rfl, b.nonce, rfl, _, field rfl, b.tenantId, rfl, _, field rfl, b.environmentId, rfl, ?_⟩
  refine ⟨_, field rfl, b.endpointId, rfl, _, field rfl, b.nameSpace, rfl, _, field rfl, b.packetDigest, rfl, ?_⟩
  refine ⟨_, field rfl, b.commandSetDigest, rfl, _, field rfl, b.releaseDigest, rfl, _, field rfl, b.capacityDigest, rfl, ?_⟩
  refine ⟨_, field rfl, b.notBefore, rfl, _, field rfl, b.notAfter, rfl, ?_⟩
  rw [dif_pos b.window]
  rfl

end SessionBinding

end HarnessConformance
