import HarnessConformance.Lib.Lines

/-! # Definite lengths

Big-endian numbers without leading zeros, and the tag-length-value items of DER. A concatenation of items has no other
decomposition into items. -/

namespace HarnessConformance.Lib.Der
open Lines
set_option autoImplicit false

/-! ## Big-endian numbers -/

/-- `int.from_bytes(bytes, "big")` -/
def ofBig (bytes : Bytes) : ℕ := bytes.foldl (fun n b => 256 * n + b.toNat) 0

/-- The number in base 256, the highest byte first and never zero. -/
def toBig (n : ℕ) : Bytes := (Nat.digits 256 n).reverse.map UInt8.ofNat

theorem ofBig_eq (bytes : Bytes) : ofBig bytes = Nat.ofDigits 256 (bytes.map UInt8.toNat).reverse := by
  induction bytes using List.reverseRecOn with
  | nil => rfl
  | append_singleton bytes b ih =>
    rw [ofBig, List.foldl_append, ← ofBig, ih, List.map_append, List.reverse_append]
    simp only [List.foldl_cons, List.foldl_nil, List.map_cons, List.map_nil, List.reverse_singleton, List.singleton_append,
      Nat.ofDigits_cons]
    omega

theorem ofBig_toBig (n : ℕ) : ofBig (toBig n) = n := by
  have hdigits : ((Nat.digits 256 n).reverse.map UInt8.ofNat).map UInt8.toNat = (Nat.digits 256 n).reverse := by
    rw [List.map_map]
    refine (List.map_congr_left fun d hd => ?_).trans (List.map_id _)
    have hlt : d < 256 := Nat.digits_lt_base (by decide) (List.mem_reverse.mp hd)
    simp [Nat.mod_eq_of_lt hlt]
  rw [ofBig_eq, toBig, hdigits, List.reverse_reverse, Nat.ofDigits_digits]

theorem toBig_ofBig {b : UInt8} {bytes : Bytes} (hb : b ≠ 0) : toBig (ofBig (b :: bytes)) = b :: bytes := by
  have hdigits : Nat.digits 256 (ofBig (b :: bytes)) = ((b :: bytes).map UInt8.toNat).reverse := by
    rw [ofBig_eq]
    refine Nat.digits_ofDigits 256 (by decide) _ (fun d hd => ?_) fun hne => ?_
    · obtain ⟨c, -, rfl⟩ := List.mem_map.mp (List.mem_reverse.mp hd)
      exact c.toNat_lt
    · simp only [List.map_cons, List.reverse_cons, List.getLast_append_of_ne_nil _ (List.cons_ne_nil _ _), List.getLast_singleton]
      exact fun h => hb (UInt8.toNat_inj.mp h)
  rw [toBig, hdigits, List.reverse_reverse, List.map_map]
  exact (List.map_congr_left fun c _ => UInt8.ofNat_toNat).trans (List.map_id _)

theorem length_toBig_le {n k : ℕ} : (toBig n).length ≤ k ↔ n < 256 ^ k := by
  rw [toBig, List.length_map, List.length_reverse]
  exact Nat.digits_length_le_iff (by decide) n

theorem toBig_ne_zero {n : ℕ} (h : n ≠ 0) : ∃ b bytes, toBig n = b :: bytes ∧ b ≠ 0 := by
  have hne : Nat.digits 256 n ≠ [] := Nat.digits_ne_nil_iff_ne_zero.mpr h
  refine ⟨UInt8.ofNat ((Nat.digits 256 n).getLast hne), ((Nat.digits 256 n).dropLast.reverse.map UInt8.ofNat), ?_, fun hzero => ?_⟩
  · rw [toBig, ← List.map_cons, ← List.reverse_concat, List.dropLast_append_getLast]
  · have hlast := Nat.getLast_digit_ne_zero 256 h
    have hlt : (Nat.digits 256 n).getLast hne < 256 := Nat.digits_lt_base (by decide) (List.getLast_mem hne)
    have hcast := congrArg UInt8.toNat hzero
    simp only [UInt8.toNat_ofNat', Nat.mod_eq_of_lt hlt] at hcast
    exact hlast hcast

/-! ## Lengths -/

/-- The shortest definite form of a length: one byte below 128, and else the count of its bytes before them. -/
def definite (n : ℕ) : Bytes :=
  if n < 128 then [UInt8.ofNat n] else UInt8.ofNat (128 + (toBig n).length) :: toBig n

/-- Lengths whose count of bytes fits beside the high bit. -/
def Definite (n : ℕ) : Prop := n < 256 ^ 127

theorem definite_append_inj {m n : ℕ} (hm : Definite m) (hn : Definite n) {x y : Bytes}
    (h : definite m ++ x = definite n ++ y) : m = n ∧ x = y := by
  have hcount {k : ℕ} (hk : Definite k) : (toBig k).length ≤ 127 := length_toBig_le.mpr hk
  have hshort {k : ℕ} (hk : k < 128) : (UInt8.ofNat k).toNat = k := by simp; omega
  have hlong {k : ℕ} (hk : Definite k) : (UInt8.ofNat (128 + (toBig k).length)).toNat = 128 + (toBig k).length := by
    have hle := hcount hk
    simp
    omega
  have hm' := hcount hm
  have hn' := hcount hn
  unfold definite at h
  by_cases hmlt : m < 128 <;> by_cases hnlt : n < 128
  · rw [if_pos hmlt, if_pos hnlt] at h
    obtain ⟨hhead, hrest⟩ := List.cons.inj h
    have hnat := congrArg UInt8.toNat hhead
    rw [hshort hmlt, hshort hnlt] at hnat
    exact ⟨hnat, hrest⟩
  · rw [if_pos hmlt, if_neg hnlt] at h
    have hnat := congrArg UInt8.toNat (List.cons.inj h).1
    rw [hshort hmlt, hlong hn] at hnat
    omega
  · rw [if_neg hmlt, if_pos hnlt] at h
    have hnat := congrArg UInt8.toNat (List.cons.inj h).1
    rw [hlong hm, hshort hnlt] at hnat
    omega
  · rw [if_neg hmlt, if_neg hnlt] at h
    obtain ⟨hhead, hrest⟩ := List.cons.inj h
    have hnat := congrArg UInt8.toNat hhead
    rw [hlong hm, hlong hn] at hnat
    obtain ⟨hbig, hxy⟩ := List.append_inj hrest (by omega)
    rw [← ofBig_toBig m, hbig, ofBig_toBig]
    exact ⟨rfl, hxy⟩

/-! ## Items -/

/-- A tag before the length and the bytes of its content. -/
def encode (tag : UInt8) (content : Bytes) : Bytes := tag :: (definite content.length ++ content)

theorem encode_append_inj {tag tag' : UInt8} {content content' x y : Bytes} (h : Definite content.length)
    (h' : Definite content'.length) (heq : encode tag content ++ x = encode tag' content' ++ y) :
    (tag = tag' ∧ content = content') ∧ x = y := by
  obtain ⟨htag, hrest⟩ := List.cons.inj heq
  change definite content.length ++ content ++ x = definite content'.length ++ content' ++ y at hrest
  rw [List.append_assoc, List.append_assoc] at hrest
  obtain ⟨hlength, hrest⟩ := definite_append_inj h h' hrest
  obtain ⟨hcontent, hxy⟩ := List.append_inj hrest hlength
  exact ⟨⟨htag, hcontent⟩, hxy⟩

/-- Items in order. -/
def encodeAll (items : List (UInt8 × Bytes)) : Bytes := (items.map fun i => encode i.1 i.2).flatten

/-- One decomposition at most. -/
theorem encodeAll_inj {items items' : List (UInt8 × Bytes)} (h : ∀ i ∈ items, Definite i.2.length)
    (h' : ∀ i ∈ items', Definite i.2.length) (heq : encodeAll items = encodeAll items') : items = items' := by
  induction items generalizing items' with
  | nil =>
    cases items' with
    | nil => rfl
    | cons i items' => cases heq
  | cons i items ih =>
    cases items' with
    | nil => cases heq
    | cons j items' =>
      rw [List.forall_mem_cons] at h h'
      obtain ⟨⟨htag, hcontent⟩, hrest⟩ := encode_append_inj h.1 h'.1 heq
      rw [Prod.ext htag hcontent, ih h.2 h'.2 hrest]

end HarnessConformance.Lib.Der
