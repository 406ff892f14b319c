import HarnessConformance.Lib.JsonText
import HarnessConformance.Lib.Outcome
import Mathlib

/-! # The reader inverts the writer

`decode_encode`: the text of a dictionary value is read back as that value. Hence `encode` is
injective (`encode_injective`), and the text in key order determines a value up to member order
(`encode_canon_inj`). -/

namespace HarnessConformance.Lib.Json
open Outcome
set_option autoImplicit false

/-! ## Numbers -/

/-- The text after a number does not continue it. -/
def Stops (rest : List Char) : Prop :=
  ∀ c, rest.head? = some c → isDigit c = false ∧ c ≠ '.' ∧ c ≠ 'e' ∧ c ≠ 'E'

theorem Stops.nil : Stops [] := by
  intro c hc
  cases hc

theorem Stops.cons {c : Char} (rest : List Char) (h : isDigit c = false) (h1 : c ≠ '.') (h2 : c ≠ 'e')
    (h3 : c ≠ 'E') : Stops (c :: rest) := by
  intro d hd
  obtain rfl := Option.some.inj hd
  exact ⟨h, h1, h2, h3⟩

theorem digitChar_lt_ten : ∀ d < 10, isDigit (Nat.digitChar d) = true ∧
    (Nat.digitChar d).toNat - '0'.toNat = d ∧ (Nat.digitChar d = '0' → d = 0) := by
  decide

theorem isDigit_of_mem_encodeNat {n : ℕ} {c : Char} (h : c ∈ encodeNat n) : isDigit c = true := by
  unfold encodeNat at h
  split at h
  · obtain rfl := List.mem_singleton.mp h
    decide
  · obtain ⟨d, hd, rfl⟩ := List.mem_map.mp h
    exact (digitChar_lt_ten d (Nat.digits_lt_base (by omega) (List.mem_reverse.mp hd))).1

theorem natOfDigits_map (ds : List ℕ) (h : ∀ d ∈ ds, d < 10) (acc : ℕ) :
    (ds.map Nat.digitChar).foldl (fun n c => 10 * n + (c.toNat - '0'.toNat)) acc =
      ds.foldl (fun n d => 10 * n + d) acc := by
  induction ds generalizing acc with
  | nil => rfl
  | cons d ds ih =>
    rw [List.forall_mem_cons] at h
    rw [List.map_cons, List.foldl_cons, List.foldl_cons, (digitChar_lt_ten d h.1).2.1, ih h.2]

theorem natOfDigits_encodeNat (n : ℕ) : natOfDigits (encodeNat n) = n := by
  unfold encodeNat
  split
  · subst_vars
    rfl
  · rw [natOfDigits, natOfDigits_map, List.foldl_reverse]
    · have h := Nat.ofDigits_eq_foldr 10 (Nat.digits 10 n)
      rw [Nat.ofDigits_digits] at h
      simp only [Nat.cast_id] at h
      conv_rhs => rw [h]
      congr 1
      funext d acc
      omega
    · intro d hd
      exact Nat.digits_lt_base (by omega) (List.mem_reverse.mp hd)

/-- The first digit of a positive number is not zero. -/
theorem encodeNat_head {n : ℕ} (hn : n ≠ 0) :
    ∃ c t, encodeNat n = c :: t ∧ isDigit c = true ∧ c ≠ '0' := by
  have hne : Nat.digits 10 n ≠ [] := Nat.digits_ne_nil_iff_ne_zero.mpr hn
  have hlast := Nat.getLast_digit_ne_zero 10 hn
  have hmem : (Nat.digits 10 n).getLast hne ∈ Nat.digits 10 n := List.getLast_mem hne
  obtain ⟨h1, -, h3⟩ := digitChar_lt_ten _ (Nat.digits_lt_base (by omega) hmem)
  refine ⟨Nat.digitChar ((Nat.digits 10 n).getLast hne), ((Nat.digits 10 n).dropLast.reverse).map Nat.digitChar,
    ?_, h1, fun h0 => hlast (h3 h0)⟩
  rw [encodeNat, if_neg hn, ← List.map_cons]
  congr 1
  conv_lhs => rw [← List.dropLast_append_getLast hne]
  rw [List.reverse_append]
  rfl

theorem floatFollows_of_stops {rest : List Char} (h : Stops rest) : floatFollows rest = false := by
  cases rest with
  | nil => rfl
  | cons c rest =>
    obtain ⟨-, h1, h2, h3⟩ := h c rfl
    unfold floatFollows
    split <;> simp_all

theorem finishNumber_of_stops {n : ℤ} {rest : List Char} (h : Stops rest) :
    finishNumber n rest = .ok (int n, rest) := by
  rw [finishNumber, floatFollows_of_stops h]
  rfl

theorem dropWhile_digits {ds rest : List Char} (hds : ∀ c ∈ ds, isDigit c = true) (h : Stops rest) :
    (ds ++ rest).takeWhile isDigit = ds ∧ (ds ++ rest).dropWhile isDigit = rest := by
  have hrest : rest.takeWhile isDigit = [] ∧ rest.dropWhile isDigit = rest := by
    cases rest with
    | nil => exact ⟨rfl, rfl⟩
    | cons c rest => simp [(h c rfl).1]
  rw [List.takeWhile_append_of_pos hds, List.dropWhile_append_of_pos hds, hrest.1, hrest.2, List.append_nil]
  exact ⟨rfl, rfl⟩

theorem scanNat_encodeNat (sign : ℤ) (n : ℕ) {rest : List Char} (h : Stops rest) :
    scanNat sign (encodeNat n ++ rest) = .ok (int (sign * n), rest) := by
  by_cases hn : n = 0
  · subst hn
    rw [show encodeNat 0 ++ rest = '0' :: rest from rfl, scanNat, finishNumber_of_stops h]
    simp
  · obtain ⟨c, t, hct, hdigit, hzero⟩ := encodeNat_head hn
    have hall : ∀ d ∈ encodeNat n, isDigit d = true := fun d hd => isDigit_of_mem_encodeNat hd
    obtain ⟨htake, hdrop⟩ := dropWhile_digits hall h
    rw [hct, List.cons_append] at htake hdrop ⊢
    rw [scanNat, if_pos hdigit]
    · simp only [htake, hdrop, finishNumber_of_stops h]
      rw [← hct, natOfDigits_encodeNat]
    · exact fun h0 => hzero h0

theorem encodeNat_ne {n : ℕ} {c : Char} {t : List Char} (h : encodeNat n = c :: t) : isDigit c = true :=
  isDigit_of_mem_encodeNat (h ▸ List.mem_cons_self ..)

theorem scanNumber_digit {c : Char} (hc : isDigit c = true) (t : List Char) :
    scanNumber (c :: t) = scanNat 1 (c :: t) := by
  unfold scanNumber
  split
  case h_5 => rfl
  all_goals
    rename_i heq
    rw [(List.cons.inj heq).1] at hc
    exact absurd hc (by decide)

theorem scanNumber_minus {c : Char} (hc : isDigit c = true) (t : List Char) :
    scanNumber ('-' :: c :: t) = scanNat (-1) (c :: t) := by
  rw [scanNumber]
  intro tail heq
  rw [(List.cons.inj heq).1] at hc
  exact absurd hc (by decide)

theorem decodeValue_number {c : Char} (hc : isDigit c = true ∨ c = '-') (n : ℕ) (t : List Char) :
    decodeValue (n + 1) (c :: t) = scanNumber (c :: t) := by
  unfold decodeValue
  split
  case h_8 => simp_all
  case h_1 => simp_all
  all_goals
    rename_i heq
    rw [(List.cons.inj heq).1] at hc
    rcases hc with hc | hc <;> exact absurd hc (by decide)

theorem scanNumber_encodeInt (n : ℤ) {rest : List Char} (h : Stops rest) :
    scanNumber (encodeInt n ++ rest) = .ok (int n, rest) := by
  obtain ⟨c, t, hct⟩ : ∃ c t, encodeNat n.natAbs = c :: t := by
    by_cases hn : n.natAbs = 0
    · exact ⟨'0', [], by rw [hn]; rfl⟩
    · obtain ⟨c, t, hct, -⟩ := encodeNat_head hn
      exact ⟨c, t, hct⟩
  have hc := encodeNat_ne hct
  have hscan := fun sign => scanNat_encodeNat sign n.natAbs h
  simp only [hct, List.cons_append] at hscan
  unfold encodeInt
  split
  · rw [hct, List.cons_append, List.cons_append, scanNumber_minus hc, hscan]
    congr 3
    omega
  · rw [hct, List.cons_append, scanNumber_digit hc, hscan]
    congr 3
    omega

/-! ## Strings -/

theorem hexVal_digitChar : ∀ d < 16, hexVal (Nat.digitChar d) = some d := by
  decide

theorem scanString_control {c : Char} (hc : c.toNat < 32) (rest : List Char) :
    scanString ('\\' :: 'u' :: '0' :: '0' :: Nat.digitChar (c.toNat / 16) :: Nat.digitChar (c.toNat % 16) :: rest) =
      consChar c (scanString rest) := by
  have hhex : hex4 '0' '0' (Nat.digitChar (c.toNat / 16)) (Nat.digitChar (c.toNat % 16)) = some c.toNat := by
    have h0 : hexVal '0' = some 0 := by decide
    simp only [hex4, h0, hexVal_digitChar _ (by omega : c.toNat / 16 < 16), hexVal_digitChar _ (by omega : c.toNat % 16 < 16),
      Option.bind_eq_bind, Option.bind_some, Option.pure_def, Option.some.injEq]
    omega
  simp only [scanString, hhex]
  rw [if_neg (by omega), if_neg (by omega), Char.ofNat_toNat]

theorem scanString_plain {c : Char} (hquote : c ≠ '"') (hback : c ≠ '\\') (hc : ¬ c.toNat < 32) (rest : List Char) :
    scanString (c :: rest) = consChar c (scanString rest) := by
  rw [scanString, if_neg hc]
  · intro h
    exact hquote h
  · intros
    exact hback (by assumption)
  · intros
    exact hback (by assumption)

theorem scanString_escapeChar (c : Char) (rest : List Char) :
    scanString (escapeChar c ++ rest) = consChar c (scanString rest) := by
  induction c using escapeChar_cases with
  | control c hc => exact scanString_control hc rest
  | plain c hquote hback hc => exact scanString_plain hquote hback hc rest
  | _ => rfl

theorem scanString_escaped (s rest : List Char) :
    scanString (s.flatMap escapeChar ++ '"' :: rest) = .ok (s, rest) := by
  induction s with
  | nil => rfl
  | cons c s ih =>
    rw [List.flatMap_cons, List.append_assoc, scanString_escapeChar, ih]
    rfl

theorem encodeString_append (s : String) (rest : List Char) :
    encodeString s ++ rest = '"' :: (s.toList.flatMap escapeChar ++ '"' :: rest) := by
  simp [encodeString]

/-! ## Values -/

theorem pairs_of_nodup {members : Members} (h : (keys members).Nodup) : pairs members = .ok (obj members) := by
  have hnone : ((keys members).find? fun k => 1 < (keys members).count k) = none := by
    rw [List.find?_eq_none]
    intro k _
    have := List.nodup_iff_count_le_one.mp h k
    simp only [decide_eq_true_eq, not_lt]
    exact this
  rw [pairs, hnone]

/-- No value starts like space or like the end of a collection. -/
theorem encode_head (v : Json) :
    ∃ c t, encode v = c :: t ∧ isSpace c = false ∧ c ≠ ']' ∧ c ≠ '}' := by
  cases v with
  | null => exact ⟨'n', _, rfl, by decide⟩
  | bool b => cases b with
    | true => exact ⟨'t', _, rfl, by decide⟩
    | false => exact ⟨'f', _, rfl, by decide⟩
  | int n =>
    rw [encode, encodeInt]
    split
    · exact ⟨'-', _, rfl, by decide⟩
    · cases hn : encodeNat n.natAbs with
      | nil =>
        rw [encodeNat] at hn
        split at hn
        · cases hn
        · simp_all
      | cons c t =>
        have hc := encodeNat_ne hn
        refine ⟨c, t, rfl, ?_, ?_, ?_⟩
        · by_contra hs
          simp only [isSpace, Bool.not_eq_false, Bool.or_eq_true, beq_iff_eq] at hs
          rcases hs with ((rfl | rfl) | rfl) | rfl <;> exact absurd hc (by decide)
        · rintro rfl
          exact absurd hc (by decide)
        · rintro rfl
          exact absurd hc (by decide)
  | str s => exact ⟨'"', _, rfl, by decide⟩
  | arr items => cases items with
    | nil => exact ⟨'[', _, rfl, by decide⟩
    | cons v vs => exact ⟨'[', _, by rw [encode]; rfl, by decide⟩
  | obj members => cases members with
    | nil => exact ⟨'{', _, rfl, by decide⟩
    | cons m ms => exact ⟨'{', _, by rw [encode]; rfl, by decide⟩

theorem skipSpace_cons {c : Char} {t : List Char} (h : isSpace c = false) : skipSpace (c :: t) = c :: t := by
  simp [skipSpace, h]

theorem skipSpace_encode (v : Json) (rest : List Char) : skipSpace (encode v ++ rest) = encode v ++ rest := by
  obtain ⟨c, t, hct, hc, -⟩ := encode_head v
  rw [hct, List.cons_append, skipSpace_cons hc]

theorem encodeItems_stops (vs : List Json) (rest : List Char) : Stops (encodeItems vs ++ rest) := by
  cases vs <;> exact Stops.cons _ (by decide) (by decide) (by decide) (by decide)

theorem encodeMembers_stops (ms : Members) (rest : List Char) : Stops (encodeMembers ms ++ rest) := by
  cases ms <;> exact Stops.cons _ (by decide) (by decide) (by decide) (by decide)

/-- Reading `v` back, with any fuel that covers its text. -/
def ReadsBack (v : Json) : Prop :=
  ∀ fuel rest, (encode v).length ≤ fuel → Stops rest → decodeValue fuel (encode v ++ rest) = .ok (v, rest)

theorem decodeItems_encodeItems {vs : List Json} (h : ∀ v ∈ vs, ReadsBack v) (fuel : ℕ) (rest : List Char)
    (hfuel : (encodeItems vs).length ≤ fuel) : decodeItems fuel (encodeItems vs ++ rest) = .ok (vs, rest) := by
  induction vs generalizing fuel with
  | nil =>
    cases fuel with
    | zero => simp [encodeItems] at hfuel
    | succ n => rfl
  | cons v vs ih =>
    rw [List.forall_mem_cons] at h
    cases fuel with
    | zero => simp [encodeItems] at hfuel
    | succ n =>
      simp only [encodeItems, List.length_cons, List.length_append] at hfuel
      have hv := h.1 n (encodeItems vs ++ rest) (by omega) (encodeItems_stops vs rest)
      have hvs := ih h.2 n (by omega)
      rw [encodeItems]
      simp only [List.cons_append, List.append_assoc]
      rw [decodeItems, skipSpace_cons (by decide)]
      simp only [skipSpace_encode, hv, hvs, bind, Except.bind]
      rfl

theorem scanMember_encode {k : String} {v : Json} (h : ReadsBack v) {n : ℕ} {rest : List Char}
    (hn : (encode v).length ≤ n) (hrest : Stops rest) :
    scanMember (decodeValue n) (encodeString k ++ ':' :: (encode v ++ rest)) = .ok ((k, v), rest) := by
  rw [encodeString_append, scanMember, scanString_escaped]
  simp only [bind, Except.bind, skipSpace_cons (by decide : isSpace ':' = false), skipSpace_encode,
    h n rest hn hrest, String.ofList_toList]
  rfl

theorem decodeMembers_encodeMembers {ms : Members} (h : ∀ m ∈ ms, ReadsBack m.2) (fuel : ℕ) (rest : List Char)
    (hfuel : (encodeMembers ms).length ≤ fuel) :
    decodeMembers fuel (encodeMembers ms ++ rest) = .ok (ms, rest) := by
  induction ms generalizing fuel with
  | nil =>
    cases fuel with
    | zero => simp [encodeMembers] at hfuel
    | succ n => rfl
  | cons m ms ih =>
    obtain ⟨k, v⟩ := m
    rw [List.forall_mem_cons] at h
    cases fuel with
    | zero => simp [encodeMembers] at hfuel
    | succ n =>
      simp only [encodeMembers, List.length_cons, List.length_append] at hfuel
      have hm := scanMember_encode (k := k) h.1 (by omega : (encode v).length ≤ n) (encodeMembers_stops ms rest)
      have hms := ih h.2 n (by omega)
      have hspace : skipSpace (encodeString k ++ ':' :: (encode v ++ (encodeMembers ms ++ rest))) =
          encodeString k ++ ':' :: (encode v ++ (encodeMembers ms ++ rest)) := by
        rw [encodeString_append]
        exact skipSpace_cons (by decide)
      rw [encodeMembers, decodeMembers]
      simp only [List.cons_append, List.append_assoc, skipSpace_cons (by decide : isSpace ',' = false), hspace, hm,
        hms, bind, Except.bind]
      rfl

theorem readsBack_arr {items : List Json} (h : ∀ v ∈ items, ReadsBack v) : ReadsBack (arr items) := by
  intro fuel rest hfuel _
  cases fuel with
  | zero => cases items <;> simp [encode] at hfuel
  | succ n =>
    cases items with
    | nil => rfl
    | cons v vs =>
      rw [List.forall_mem_cons] at h
      simp only [encode, List.length_cons, List.length_append] at hfuel
      have hv := h.1 n (encodeItems vs ++ rest) (by omega) (encodeItems_stops vs rest)
      have hvs := decodeItems_encodeItems h.2 n rest (by omega)
      obtain ⟨c, t, hct, hc, hclose, -⟩ := encode_head v
      rw [encode]
      simp only [List.cons_append, List.append_assoc]
      rw [decodeValue, skipSpace_encode]
      rw [hct, List.cons_append] at hv ⊢
      split
      · rename_i heq
        exact absurd (List.cons.inj heq).1 hclose
      · simp only [hv, hvs, bind, Except.bind]
        rfl

theorem readsBack_obj {members : Members} (hnd : (keys members).Nodup) (h : ∀ m ∈ members, ReadsBack m.2) :
    ReadsBack (obj members) := by
  intro fuel rest hfuel _
  cases fuel with
  | zero => cases members <;> simp [encode] at hfuel
  | succ n =>
    cases members with
    | nil => rfl
    | cons m ms =>
      obtain ⟨k, v⟩ := m
      rw [List.forall_mem_cons] at h
      simp only [encode, List.length_cons, List.length_append] at hfuel
      have hm := scanMember_encode (k := k) h.1 (by omega : (encode v).length ≤ n) (encodeMembers_stops ms rest)
      have hms := decodeMembers_encodeMembers h.2 n rest (by omega)
      have hspace : skipSpace (encodeString k ++ ':' :: (encode v ++ (encodeMembers ms ++ rest))) =
          encodeString k ++ ':' :: (encode v ++ (encodeMembers ms ++ rest)) := by
        rw [encodeString_append]
        exact skipSpace_cons (by decide)
      rw [encode]
      simp only [List.cons_append, List.append_assoc]
      rw [decodeValue, hspace]
      split
      · rename_i heq
        rw [encodeString_append] at heq
        exact absurd (List.cons.inj heq).1 (by decide)
      · simp only [hm, hms, pairs_of_nodup hnd, bind, Except.bind]
        rfl

theorem readsBack_int (n : ℤ) : ReadsBack (int n) := by
  intro fuel rest hfuel hstop
  obtain ⟨c, t, hct, -⟩ := encode_head (int n)
  rw [encode] at hct
  cases fuel with
  | zero => simp [encode, hct] at hfuel
  | succ k =>
    have hscan := scanNumber_encodeInt n hstop
    have hc : isDigit c = true ∨ c = '-' := by
      unfold encodeInt at hct
      split at hct
      · exact .inr (List.cons.inj hct).1.symm
      · exact .inl (encodeNat_ne hct)
    rw [hct, List.cons_append] at hscan
    rw [encode, hct, List.cons_append, decodeValue_number hc, hscan]

theorem readsBack {v : Json} (h : v.Wf) : ReadsBack v := by
  induction v with
  | null =>
    intro fuel rest hfuel _
    cases fuel with
    | zero => simp [encode] at hfuel
    | succ n => rfl
  | bool b =>
    intro fuel rest hfuel _
    cases fuel with
    | zero => cases b <;> simp [encode] at hfuel
    | succ n => cases b <;> rfl
  | int n => exact readsBack_int n
  | str s =>
    intro fuel rest hfuel _
    cases fuel with
    | zero => simp [encode, encodeString] at hfuel
    | succ n =>
      rw [encode, encodeString_append, decodeValue, scanString_escaped]
      simp only [bind, Except.bind, String.ofList_toList]
      rfl
  | arr items ih =>
    rw [wf_arr] at h
    exact readsBack_arr fun v hv => ih v hv (h v hv)
  | obj members ih =>
    rw [wf_obj] at h
    exact readsBack_obj h.1 fun m hm => ih m hm (h.2 m hm)

/-- A value's text, with or without trailing space, is read back as the value. -/
theorem decode_encode {v : Json} (h : v.Wf) {tail : List Char} (htail : ∀ c ∈ tail, isSpace c = true) :
    decode (encode v ++ tail) = .ok v := by
  have hstop : Stops tail := by
    intro c hc
    have hs := htail c (List.mem_of_head? hc)
    simp only [isSpace, Bool.or_eq_true, beq_iff_eq] at hs
    rcases hs with ((rfl | rfl) | rfl) | rfl <;> decide
  have hread := readsBack h ((encode v ++ tail).length + 1) tail (by simp; omega) hstop
  have hskip : skipSpace tail = [] := List.dropWhile_eq_nil_iff.mpr htail
  rw [decode, skipSpace_encode, hread]
  simp only [bind, Except.bind, hskip]
  rfl

theorem encode_injective {v w : Json} (hv : v.Wf) (hw : w.Wf) (h : encode v = encode w) : v = w := by
  have h1 : decode (encode v ++ []) = .ok v := decode_encode hv (by simp)
  have h2 : decode (encode w ++ []) = .ok w := decode_encode hw (by simp)
  rw [h, h2] at h1
  exact (Except.ok.inj h1).symm

theorem encode_canon_inj {v w : Json} (hv : v.Wf) (hw : w.Wf) :
    encode v.canon = encode w.canon ↔ v.canon = w.canon :=
  ⟨fun h => encode_injective hv.canon hw.canon h, fun h => by rw [h]⟩

/-! ## What is written holds no control character -/

theorem printable_escapeChar (c : Char) : ∀ d ∈ escapeChar c, 32 ≤ d.toNat := by
  induction c using escapeChar_cases with
  | control c hc =>
    have hdigit : ∀ n < 32, 32 ≤ (Nat.digitChar n).toNat := by decide
    have hhigh := hdigit (c.toNat / 16) (by omega)
    have hlow := hdigit (c.toNat % 16) (by omega)
    simp [hhigh, hlow]
  | plain c hquote hback hc => simpa using hc
  | _ => simp

theorem printable_encodeString {s : String} {c : Char} (h : c ∈ encodeString s) : 32 ≤ c.toNat := by
  rw [encodeString] at h
  simp only [List.cons_append, List.mem_cons, List.mem_append, List.mem_flatMap, List.not_mem_nil, or_false] at h
  rcases h with rfl | ⟨d, -, hd⟩ | rfl
  · decide
  · exact printable_escapeChar d c hd
  · decide

theorem printable_encodeInt {n : ℤ} {c : Char} (h : c ∈ encodeInt n) : 32 ≤ c.toNat := by
  have hdigit : ∀ d : Char, isDigit d = true → 32 ≤ d.toNat := by
    intro d hd
    simp only [isDigit, Bool.and_eq_true, decide_eq_true_eq] at hd
    have h0 : '0'.toNat ≤ d.toNat := hd.1
    exact le_trans (by decide) h0
  unfold encodeInt at h
  split at h
  · rcases List.mem_cons.mp h with rfl | h
    · decide
    · exact hdigit c (isDigit_of_mem_encodeNat h)
  · exact hdigit c (isDigit_of_mem_encodeNat h)

theorem printable_encodeItems {vs : List Json} (h : ∀ v ∈ vs, ∀ c ∈ encode v, 32 ≤ c.toNat) :
    ∀ c ∈ encodeItems vs, 32 ≤ c.toNat := by
  induction vs with
  | nil => simp [encodeItems]
  | cons v vs ih =>
    rw [List.forall_mem_cons] at h
    rw [encodeItems, List.cons_append, List.forall_mem_cons, List.forall_mem_append]
    exact ⟨by decide, h.1, ih h.2⟩

theorem printable_encodeMembers {ms : Members} (h : ∀ m ∈ ms, ∀ c ∈ encode m.2, 32 ≤ c.toNat) :
    ∀ c ∈ encodeMembers ms, 32 ≤ c.toNat := by
  induction ms with
  | nil => simp [encodeMembers]
  | cons m ms ih =>
    rw [List.forall_mem_cons] at h
    rw [encodeMembers]
    simp only [List.cons_append, List.append_assoc, List.forall_mem_cons, List.forall_mem_append]
    exact ⟨by decide, fun c hc => printable_encodeString hc, by decide, h.1, ih h.2⟩

theorem printable_encode (v : Json) : ∀ c ∈ encode v, 32 ≤ c.toNat := by
  induction v with
  | null => simp [encode]
  | bool b => cases b <;> simp [encode]
  | int n => exact fun c hc => printable_encodeInt hc
  | str s => exact fun c hc => printable_encodeString hc
  | arr items ih =>
    cases items with
    | nil => simp [encode]
    | cons v vs =>
      rw [List.forall_mem_cons] at ih
      rw [encode, List.cons_append, List.forall_mem_cons, List.forall_mem_append]
      exact ⟨by decide, ih.1, printable_encodeItems ih.2⟩
  | obj members ih =>
    cases members with
    | nil => simp [encode]
    | cons m ms =>
      rw [List.forall_mem_cons] at ih
      rw [encode]
      simp only [List.cons_append, List.append_assoc, List.forall_mem_cons, List.forall_mem_append]
      exact ⟨by decide, fun c hc => printable_encodeString hc, by decide, ih.1, printable_encodeMembers ih.2⟩

/-! ## What is read is a dictionary -/

theorem pairs_eq_ok {members : Members} {v : Json} (h : pairs members = .ok v) :
    v = obj members ∧ (keys members).Nodup := by
  unfold pairs at h
  split at h
  · cases h
  · rename_i hnone
    refine ⟨(Except.ok.inj h).symm, List.nodup_iff_count_le_one.mpr fun k => ?_⟩
    by_cases hk : k ∈ keys members
    · have := List.find?_eq_none.mp hnone k hk
      simpa using this
    · rw [List.count_eq_zero_of_not_mem hk]
      omega

theorem scanMember_eq_ok {value : List Char → Except JsonError (Json × List Char)} {cs rest : List Char}
    {m : String × Json} (h : scanMember value cs = .ok (m, rest)) : ∃ cs', value cs' = .ok (m.2, rest) := by
  unfold scanMember at h
  split at h
  · obtain ⟨⟨k, r⟩, -, h⟩ := bind_eq_ok.mp h
    dsimp only at h
    split at h
    · obtain ⟨⟨v, r'⟩, hv, h⟩ := bind_eq_ok.mp h
      obtain ⟨rfl, rfl⟩ := Prod.mk.inj (pure_eq_ok.mp h)
      exact ⟨_, hv⟩
    · cases h
  · cases h

theorem finishNumber_wf {n : ℤ} {cs rest : List Char} {v : Json} (h : finishNumber n cs = .ok (v, rest)) :
    v.Wf := by
  unfold finishNumber at h
  split at h
  · cases h
  · obtain ⟨rfl, -⟩ := Prod.mk.inj (Except.ok.inj h)
    trivial

theorem scanNat_wf {sign : ℤ} {cs rest : List Char} {v : Json} (h : scanNat sign cs = .ok (v, rest)) :
    v.Wf := by
  unfold scanNat at h
  split at h
  · exact finishNumber_wf h
  · split at h
    · exact finishNumber_wf h
    · cases h
  · cases h

theorem scanNumber_wf {cs rest : List Char} {v : Json} (h : scanNumber cs = .ok (v, rest)) : v.Wf := by
  unfold scanNumber at h
  split at h
  · cases h
  · cases h
  · cases h
  · exact scanNat_wf h
  · exact scanNat_wf h

theorem decode_wf_fuel (n : ℕ) :
    (∀ cs v rest, decodeValue n cs = .ok (v, rest) → v.Wf) ∧
    (∀ cs vs rest, decodeItems n cs = .ok (vs, rest) → ∀ v ∈ vs, v.Wf) ∧
    (∀ cs ms rest, decodeMembers n cs = .ok (ms, rest) → ∀ m ∈ ms, m.2.Wf) := by
  induction n with
  | zero => exact ⟨nofun, nofun, nofun⟩
  | succ n ih =>
    obtain ⟨ihv, ihi, ihm⟩ := ih
    refine ⟨?_, ?_, ?_⟩
    · intro cs v rest h
      unfold decodeValue at h
      split at h
      case h_8 => exact scanNumber_wf h
      case h_1 => cases h
      case h_2 =>
        obtain ⟨⟨s, r⟩, -, h⟩ := bind_eq_ok.mp h
        obtain ⟨rfl, -⟩ := Prod.mk.inj (pure_eq_ok.mp h)
        trivial
      case h_3 k cs' heq =>
        obtain rfl := Nat.succ.inj heq
        split at h
        · obtain ⟨rfl, -⟩ := Prod.mk.inj (Except.ok.inj h)
          exact wf_arr.mpr (by simp)
        · obtain ⟨⟨w, r⟩, hw, h⟩ := bind_eq_ok.mp h
          obtain ⟨⟨ws, r'⟩, hws, h⟩ := bind_eq_ok.mp h
          obtain ⟨rfl, -⟩ := Prod.mk.inj (pure_eq_ok.mp h)
          exact wf_arr.mpr (List.forall_mem_cons.mpr ⟨ihv _ _ _ hw, ihi _ _ _ hws⟩)
      case h_4 k cs' heq =>
        obtain rfl := Nat.succ.inj heq
        split at h
        · obtain ⟨rfl, -⟩ := Prod.mk.inj (Except.ok.inj h)
          exact wf_obj.mpr ⟨List.nodup_nil, by simp⟩
        · obtain ⟨⟨m, r⟩, hm, h⟩ := bind_eq_ok.mp h
          obtain ⟨⟨ms, r'⟩, hms, h⟩ := bind_eq_ok.mp h
          obtain ⟨w, hw, h⟩ := bind_eq_ok.mp h
          obtain ⟨rfl, -⟩ := Prod.mk.inj (pure_eq_ok.mp h)
          obtain ⟨rfl, hnd⟩ := pairs_eq_ok hw
          obtain ⟨_, hvalue⟩ := scanMember_eq_ok hm
          exact wf_obj.mpr ⟨hnd, List.forall_mem_cons.mpr ⟨ihv _ _ _ hvalue, ihm _ _ _ hms⟩⟩
      all_goals
        obtain ⟨rfl, -⟩ := Prod.mk.inj (Except.ok.inj h)
        trivial
    · intro cs vs rest h
      rw [decodeItems] at h
      split at h
      · obtain ⟨rfl, -⟩ := Prod.mk.inj (Except.ok.inj h)
        simp
      · obtain ⟨⟨w, r⟩, hw, h⟩ := bind_eq_ok.mp h
        obtain ⟨⟨ws, r'⟩, hws, h⟩ := bind_eq_ok.mp h
        obtain ⟨rfl, -⟩ := Prod.mk.inj (pure_eq_ok.mp h)
        exact List.forall_mem_cons.mpr ⟨ihv _ _ _ hw, ihi _ _ _ hws⟩
      · cases h
    · intro cs ms rest h
      rw [decodeMembers] at h
      split at h
      · obtain ⟨rfl, -⟩ := Prod.mk.inj (Except.ok.inj h)
        simp
      · obtain ⟨⟨m, r⟩, hm, h⟩ := bind_eq_ok.mp h
        obtain ⟨⟨ns, r'⟩, hms, h⟩ := bind_eq_ok.mp h
        obtain ⟨rfl, -⟩ := Prod.mk.inj (pure_eq_ok.mp h)
        obtain ⟨_, hvalue⟩ := scanMember_eq_ok hm
        exact List.forall_mem_cons.mpr ⟨ihv _ _ _ hvalue, ihm _ _ _ hms⟩
      · cases h

theorem decode_wf {text : List Char} {v : Json} (h : decode text = .ok v) : v.Wf := by
  obtain ⟨⟨w, rest⟩, hw, h⟩ := bind_eq_ok.mp h
  dsimp only at h
  split at h
  · obtain rfl := pure_eq_ok.mp h
    exact (decode_wf_fuel _).1 _ _ _ hw
  · cases h

end HarnessConformance.Lib.Json
