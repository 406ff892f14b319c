import HarnessConformance.Lib.JsonText
import HarnessConformance.Lib.Utf8
import HarnessConformance.Lib.Regex

/-! # How long the text of a value is

The exact number of UTF-8 bytes of a value's text, by recursion on the value, and the height of
its nesting. Neither sees the order of members. -/

namespace HarnessConformance.Lib
open Utf8
set_option autoImplicit false

namespace Json

/-! ## Width -/

def charWidth (c : Char) : ℕ := (encodeText (escapeChar c)).length

def textWidth (s : String) : ℕ := (s.toList.map charWidth).sum

mutual
def width : Json → ℕ
  | null => 4
  | bool true => 4
  | bool false => 5
  | int n => (encodeText (encodeInt n)).length
  | str s => textWidth s + 2
  | arr items => 2 + (items.length - 1) + widthItems items
  | obj members => 2 + (members.length - 1) + members.length + widthMembers members
def widthItems : List Json → ℕ
  | [] => 0
  | v :: vs => width v + widthItems vs
def widthMembers : Members → ℕ
  | [] => 0
  | (k, v) :: ms => textWidth k + 2 + width v + widthMembers ms
end

theorem widthItems_eq (items : List Json) : widthItems items = (items.map width).sum := by
  induction items with
  | nil => rfl
  | cons v vs ih => rw [widthItems, ih, List.map_cons, List.sum_cons]

theorem widthMembers_eq (members : Members) :
    widthMembers members = (members.map fun m => textWidth m.1 + 2 + width m.2).sum := by
  induction members with
  | nil => rfl
  | cons m ms ih => rw [widthMembers, ih, List.map_cons, List.sum_cons]

theorem length_encodeString (s : String) : (encodeText (encodeString s)).length = textWidth s + 2 := by
  have hbody (cs : List Char) : (encodeText (cs.flatMap escapeChar)).length = (cs.map charWidth).sum := by
    induction cs with
    | nil => rfl
    | cons c cs ih =>
      rw [List.flatMap_cons, encodeText_append, List.length_append, ih, List.map_cons, List.sum_cons, charWidth]
  have hsplit : encodeText (encodeString s) = encodeText ['"'] ++ encodeText (s.toList.flatMap escapeChar) ++ encodeText ['"'] := by
    rw [← encodeText_append, ← encodeText_append]
    rfl
  have hquote : (encodeText ['"']).length = 1 := by decide
  rw [hsplit, List.length_append, List.length_append, hbody, hquote, textWidth]
  omega

/-- One character of punctuation in front. -/
theorem length_encodeText_cons {c : Char} (hc : (encodeText [c]).length = 1) (cs : List Char) :
    (encodeText (c :: cs)).length = 1 + (encodeText cs).length := by
  have hsplit : encodeText (c :: cs) = encodeText [c] ++ encodeText cs := by
    rw [← encodeText_append]
    rfl
  rw [hsplit, List.length_append, hc]

theorem length_encodeItems {items : List Json} (h : ∀ v ∈ items, (encodeText (encode v)).length = width v) :
    (encodeText (encodeItems items)).length = 1 + items.length + widthItems items := by
  induction items with
  | nil => decide
  | cons v vs ih =>
    rw [List.forall_mem_cons] at h
    have hrest := ih h.2
    rw [encodeItems, List.cons_append, length_encodeText_cons (by decide), encodeText_append, List.length_append, h.1, hrest,
      widthItems, List.length_cons]
    omega

theorem length_encodeMembers {members : Members} (h : ∀ m ∈ members, (encodeText (encode m.2)).length = width m.2) :
    (encodeText (encodeMembers members)).length = 1 + members.length + members.length + widthMembers members := by
  induction members with
  | nil => decide
  | cons m ms ih =>
    obtain ⟨k, v⟩ := m
    rw [List.forall_mem_cons] at h
    have hrest := ih h.2
    have hv : (encodeText (encode v)).length = width v := h.1
    have hshape : encodeMembers ((k, v) :: ms) = ',' :: (encodeString k ++ ':' :: (encode v ++ encodeMembers ms)) := by
      simp [encodeMembers]
    rw [hshape, length_encodeText_cons (by decide), encodeText_append, List.length_append,
      length_encodeText_cons (by decide), encodeText_append, List.length_append, length_encodeString, hv, hrest,
      widthMembers, List.length_cons]
    omega

theorem length_encode (v : Json) : (encodeText (encode v)).length = width v := by
  induction v with
  | null => decide
  | bool b => cases b <;> decide
  | int n => rfl
  | str s => rw [encode, length_encodeString, width]
  | arr items ih =>
    cases items with
    | nil => decide
    | cons v vs =>
      rw [List.forall_mem_cons] at ih
      have hitems := length_encodeItems ih.2
      rw [encode, List.cons_append, length_encodeText_cons (by decide), encodeText_append, List.length_append, ih.1, hitems,
        width, widthItems, List.length_cons]
      omega
  | obj members ih =>
    cases members with
    | nil => decide
    | cons m ms =>
      obtain ⟨k, v⟩ := m
      rw [List.forall_mem_cons] at ih
      have hmembers := length_encodeMembers ih.2
      have hv : (encodeText (encode v)).length = width v := ih.1
      have hshape : encode (obj ((k, v) :: ms)) = '{' :: (encodeString k ++ ':' :: (encode v ++ encodeMembers ms)) := by
        simp [encode]
      rw [hshape, length_encodeText_cons (by decide), encodeText_append, List.length_append,
        length_encodeText_cons (by decide), encodeText_append, List.length_append, length_encodeString, hv, hmembers,
        width, widthMembers, List.length_cons]
      omega

theorem width_canon (v : Json) : v.canon.width = v.width := by
  induction v with
  | arr items ih =>
    rw [canon_arr, width, width, widthItems_eq, widthItems_eq, List.map_map, List.length_map]
    exact congrArg (fun l : List ℕ => 2 + (items.length - 1) + l.sum) (List.map_congr_left ih)
  | obj members ih =>
    have hperm := sortMembers_perm (members.map canonMember)
    have hsum : ((members.map canonMember).map fun m => textWidth m.1 + 2 + width m.2).sum =
        (members.map fun m => textWidth m.1 + 2 + width m.2).sum := by
      rw [List.map_map]
      exact congrArg List.sum (List.map_congr_left fun m hm => by rw [Function.comp_apply, canonMember, ih m hm])
    rw [canon_obj, width, width, widthMembers_eq, widthMembers_eq, hperm.length_eq, (hperm.map _).sum_eq, hsum,
      List.length_map]
  | _ => rfl

/-! ## Bounds -/

theorem one_le_charWidth (c : Char) : 1 ≤ charWidth c := by
  have hne : escapeChar c ≠ [] := by
    induction c using escapeChar_cases <;> exact List.cons_ne_nil _ _
  obtain ⟨d, ds, hd⟩ := List.exists_cons_of_ne_nil hne
  have hchar : 1 ≤ (String.utf8EncodeChar d).length := by
    rw [String.length_utf8EncodeChar]
    exact d.utf8Size_pos
  have happend : encodeText (d :: ds) = String.utf8EncodeChar d ++ encodeText ds := rfl
  rw [charWidth, hd, happend, List.length_append]
  omega

theorem charWidth_le (c : Char) : charWidth c ≤ 24 := by
  have hlength : (escapeChar c).length ≤ 6 := by
    induction c using escapeChar_cases <;> simp
  exact (length_encodeText_le _).trans (by omega)

theorem length_le_textWidth (s : String) : s.length ≤ textWidth s := by
  have h := List.length_le_sum_of_one_le (s.toList.map charWidth) (by simpa using fun c _ => one_le_charWidth c)
  rwa [List.length_map, String.length_toList] at h

/-- A character that is written as itself, in one byte. -/
def isPlainChar (c : Char) : Bool := 32 ≤ c.toNat && c.toNat < 127 && c != '"' && c != '\\'

def isPlain (s : String) : Bool := s.toList.all isPlainChar

/-- The characters of a literal, which reduce faster than the literal does. -/
theorem isPlain_ofList {chars : List Char} (h : chars.all isPlainChar = true) : isPlain (String.ofList chars) = true := by
  rwa [isPlain, String.toList_ofList]

theorem isPlain_append {s t : String} (hs : isPlain s = true) (ht : isPlain t = true) : isPlain (s ++ t) = true := by
  rw [isPlain, String.toList_append, List.all_append, Bool.and_eq_true]
  exact ⟨hs, ht⟩

theorem shortKey {chars : List Char} (h : (chars.all isPlainChar && chars.length.ble 32) = true) :
    isPlain (String.ofList chars) = true ∧ (String.ofList chars).length ≤ 32 := by
  obtain ⟨hplain, hlength⟩ := (Bool.and_eq_true _ _).mp h
  exact ⟨isPlain_ofList hplain, String.length_ofList ▸ Nat.le_of_ble_eq_true hlength⟩

theorem charWidth_plain {c : Char} (h : isPlainChar c = true) : charWidth c = 1 := by
  simp only [isPlainChar, Bool.and_eq_true, decide_eq_true_eq, bne_iff_ne, ne_eq] at h
  obtain ⟨⟨⟨hlow, hhigh⟩, hquote⟩, hback⟩ := h
  have hescape : escapeChar c = [c] := by
    induction c using escapeChar_cases with
    | quote => exact absurd rfl hquote
    | backslash => exact absurd rfl hback
    | control c hc => omega
    | plain c _ _ _ => rfl
    | _ => exact absurd hlow (by decide)
  have hsize : c.utf8Size = 1 := by
    rw [Char.utf8Size_eq_one_iff, UInt32.le_iff_toNat_le]
    have hval : c.val.toNat = c.toNat := rfl
    rw [hval]
    exact Nat.le_of_lt_succ (hhigh.trans (by decide))
  rw [charWidth, hescape, encodeText, List.flatMap_cons, List.flatMap_nil, List.append_nil, String.length_utf8EncodeChar,
    hsize]

theorem textWidth_plain {s : String} (h : isPlain s = true) : textWidth s = s.length := by
  rw [isPlain, List.all_eq_true] at h
  rw [textWidth, List.map_congr_left fun c hc => charWidth_plain (h c hc), List.map_const', List.sum_replicate,
    String.length_toList, smul_eq_mul, Nat.mul_one]

theorem one_le_width_int (n : ℤ) : 1 ≤ width (.int n) := by
  have hnat (m : ℕ) : encodeNat m ≠ [] := by
    unfold encodeNat
    split
    · exact List.cons_ne_nil _ _
    · rename_i hm
      simpa [Nat.digits_eq_nil_iff_eq_zero] using hm
  have hint : encodeInt n ≠ [] := by
    unfold encodeInt
    split
    · exact List.cons_ne_nil _ _
    · exact hnat _
  obtain ⟨c, cs, hc⟩ := List.exists_cons_of_ne_nil hint
  have happend : encodeText (c :: cs) = String.utf8EncodeChar c ++ encodeText cs := rfl
  have hchar : 1 ≤ (String.utf8EncodeChar c).length := by
    rw [String.length_utf8EncodeChar]
    exact c.utf8Size_pos
  rw [width, hc, happend, List.length_append]
  omega

theorem width_int_le {n : ℤ} {k : ℕ} (h : n.natAbs < 10 ^ k) : width (.int n) ≤ 4 * (k + 2) := by
  have hnat : (encodeNat n.natAbs).length ≤ k + 1 := by
    unfold encodeNat
    split
    · exact Nat.le_add_left 1 k
    · rw [List.length_map, List.length_reverse]
      exact ((Nat.digits_length_le_iff (by decide) _).mpr h).trans (Nat.le_succ k)
  have hint : (encodeInt n).length ≤ k + 2 := by
    unfold encodeInt
    split
    · rw [List.length_cons]
      omega
    · omega
  rw [width]
  exact (length_encodeText_le _).trans (Nat.mul_le_mul_left 4 hint)

/-! ## Height -/

mutual
def height : Json → ℕ
  | arr items => heightItems items
  | obj members => heightMembers members
  | _ => 0
def heightItems : List Json → ℕ
  | [] => 0
  | v :: vs => max (height v + 1) (heightItems vs)
def heightMembers : Members → ℕ
  | [] => 0
  | (_, v) :: ms => max (height v + 1) (heightMembers ms)
end

theorem heightItems_le {items : List Json} {n : ℕ} : heightItems items ≤ n ↔ ∀ v ∈ items, height v + 1 ≤ n := by
  induction items with
  | nil => simp [heightItems]
  | cons v vs ih => rw [heightItems, max_le_iff, ih, List.forall_mem_cons]

theorem heightMembers_le {members : Members} {n : ℕ} : heightMembers members ≤ n ↔ ∀ m ∈ members, height m.2 + 1 ≤ n := by
  induction members with
  | nil => simp [heightMembers]
  | cons m ms ih => rw [heightMembers, max_le_iff, ih, List.forall_mem_cons]

theorem height_canon_le {v : Json} {n : ℕ} : v.canon.height ≤ n ↔ v.height ≤ n := by
  induction v generalizing n with
  | arr items ih =>
    rw [canon_arr, height, height, heightItems_le, heightItems_le, List.forall_mem_map]
    refine forall₂_congr fun v hv => ?_
    cases n with
    | zero => simp
    | succ n => rw [Nat.succ_le_succ_iff, Nat.succ_le_succ_iff, ih v hv]
  | obj members ih =>
    have hperm := sortMembers_perm (members.map canonMember)
    rw [canon_obj, height, height, heightMembers_le, heightMembers_le]
    simp only [hperm.mem_iff, List.forall_mem_map]
    refine forall₂_congr fun m hm => ?_
    have hvalue : (canonMember m).2.height = m.2.canon.height := rfl
    cases n with
    | zero => simp
    | succ n => rw [hvalue, Nat.succ_le_succ_iff, Nat.succ_le_succ_iff, ih m hm]
  | _ => rfl

theorem height_canon (v : Json) : v.canon.height = v.height :=
  le_antisymm (height_canon_le.mpr le_rfl) (height_canon_le.mp le_rfl)

/-! ## Plain values -/

mutual
/-- Every text inside is plain, every number safe. -/
def Plain : Json → Prop
  | int n => n.natAbs ≤ 2 ^ 53 - 1
  | str s => isPlain s = true
  | arr items => PlainItems items
  | obj members => PlainMembers members
  | _ => True
def PlainItems : List Json → Prop
  | [] => True
  | v :: vs => Plain v ∧ PlainItems vs
def PlainMembers : Members → Prop
  | [] => True
  | (k, v) :: ms => isPlain k = true ∧ Plain v ∧ PlainMembers ms
end

theorem plain_arr {items : List Json} : Plain (arr items) ↔ ∀ v ∈ items, Plain v := by
  rw [Plain]
  induction items with
  | nil => simp [PlainItems]
  | cons v vs ih => rw [PlainItems, ih, List.forall_mem_cons]

theorem plain_obj {members : Members} : Plain (obj members) ↔ ∀ m ∈ members, isPlain m.1 = true ∧ Plain m.2 := by
  rw [Plain]
  induction members with
  | nil => simp [PlainMembers]
  | cons m ms ih => rw [PlainMembers, ih, List.forall_mem_cons, and_assoc]

theorem plain_canon {v : Json} : Plain v.canon ↔ Plain v := by
  induction v with
  | arr items ih =>
    rw [canon_arr, plain_arr, plain_arr, List.forall_mem_map]
    exact forall₂_congr ih
  | obj members ih =>
    have hperm := sortMembers_perm (members.map canonMember)
    rw [canon_obj, plain_obj, plain_obj]
    simp only [hperm.mem_iff, List.forall_mem_map]
    exact forall₂_congr fun m hm => and_congr_right fun _ => ih m hm
  | _ => rfl

/-- The length of a plain text, which is its width. -/
def plainText (s : String) : Option ℕ :=
  let chars := s.toList
  if chars.all isPlainChar then some chars.length else none

theorem plainText_eq_some {s : String} {n : ℕ} (h : plainText s = some n) : isPlain s = true ∧ textWidth s = n := by
  dsimp only [plainText] at h
  split at h
  · rename_i hplain
    refine ⟨hplain, ?_⟩
    rw [textWidth_plain hplain, ← Option.some.inj h, String.length_toList]
  · cases h

mutual
/-- The width of a plain value, found in one pass. -/
def plainWidth : Json → Option ℕ
  | null => some 4
  | bool true => some 4
  | bool false => some 5
  | int n => if n.natAbs ≤ 2 ^ 53 - 1 then some (width (int n)) else none
  | str s => (plainText s).map (· + 2)
  | arr items => (plainWidthItems items).map (2 + (items.length - 1) + ·)
  | obj members => (plainWidthMembers members).map (2 + (members.length - 1) + members.length + ·)
def plainWidthItems : List Json → Option ℕ
  | [] => some 0
  | v :: vs =>
    match plainWidth v, plainWidthItems vs with
    | some m, some n => some (m + n)
    | _, _ => none
def plainWidthMembers : Members → Option ℕ
  | [] => some 0
  | (k, v) :: ms =>
    match plainText k, plainWidth v, plainWidthMembers ms with
    | some l, some m, some n => some (l + 2 + m + n)
    | _, _, _ => none
end

theorem plainWidth_eq_some {v : Json} {n : ℕ} (h : plainWidth v = some n) : v.Plain ∧ v.width = n := by
  induction v generalizing n with
  | null => exact ⟨trivial, Option.some.inj h⟩
  | bool b => cases b <;> exact ⟨trivial, Option.some.inj h⟩
  | int m =>
    rw [plainWidth] at h
    split at h
    · rename_i hsafe
      exact ⟨hsafe, Option.some.inj h⟩
    · cases h
  | str s =>
    obtain ⟨m, hm, rfl⟩ := Option.map_eq_some_iff.mp h
    obtain ⟨hplain, hwidth⟩ := plainText_eq_some hm
    exact ⟨hplain, congrArg (· + 2) hwidth⟩
  | arr items ih =>
    obtain ⟨m, hm, rfl⟩ := Option.map_eq_some_iff.mp h
    have hitems : PlainItems items ∧ widthItems items = m := by
      clear h
      induction items generalizing m with
      | nil => exact ⟨trivial, Option.some.inj hm⟩
      | cons v vs ihs =>
        rw [List.forall_mem_cons] at ih
        rw [plainWidthItems] at hm
        split at hm
        · rename_i a b ha hb
          obtain ⟨hplain, rfl⟩ := ih.1 ha
          obtain ⟨hplains, rfl⟩ := ihs ih.2 b hb
          exact ⟨⟨hplain, hplains⟩, Option.some.inj hm⟩
        · cases hm
    exact ⟨hitems.1, congrArg (2 + (items.length - 1) + ·) hitems.2⟩
  | obj members ih =>
    obtain ⟨m, hm, rfl⟩ := Option.map_eq_some_iff.mp h
    have hmembers : PlainMembers members ∧ widthMembers members = m := by
      clear h
      induction members generalizing m with
      | nil => exact ⟨trivial, Option.some.inj hm⟩
      | cons p ms ihs =>
        obtain ⟨k, v⟩ := p
        rw [List.forall_mem_cons] at ih
        rw [plainWidthMembers] at hm
        split at hm
        · rename_i l a b hl ha hb
          obtain ⟨hkey, rfl⟩ := plainText_eq_some hl
          obtain ⟨hplain, rfl⟩ := ih.1 ha
          obtain ⟨hplains, rfl⟩ := ihs ih.2 b hb
          exact ⟨⟨hkey, hplain, hplains⟩, Option.some.inj hm⟩
        · cases hm
    exact ⟨hmembers.1, congrArg (2 + (members.length - 1) + members.length + ·) hmembers.2⟩

theorem isPlain_of_over {r : Regex} (hr : r.Over fun c => isPlainChar c = true) {s : String} (h : r.fullmatch s = true) :
    isPlain s = true :=
  List.all_eq_true.mpr ((Regex.fullmatch_iff.mp h).over hr)

/-- A digit or a lowercase letter of the given range is plain. -/
theorem isPlainChar_of_le {lo hi c : Char} (h : lo ≤ c ∧ c ≤ hi) (hlo : '0' ≤ lo) (hhi : hi ≤ 'z') (hback : ¬ (lo ≤ '\\' ∧ '\\' ≤ hi)) :
    isPlainChar c = true := by
  have hle {a b : Char} (hab : a ≤ b) : a.toNat ≤ b.toNat := hab
  have hlow : 48 ≤ c.toNat := (hle hlo).trans (hle h.1)
  have hhigh : c.toNat ≤ 122 := (hle h.2).trans (hle hhi)
  have hquote : c ≠ '"' := by
    rintro rfl
    exact absurd hlow (by decide)
  have hslash : c ≠ '\\' := by
    rintro rfl
    exact hback h
  simp only [isPlainChar, Bool.and_eq_true, decide_eq_true_eq, bne_iff_ne, ne_eq]
  exact ⟨⟨⟨by omega, by omega⟩, hquote⟩, hslash⟩

end Json
end HarnessConformance.Lib
