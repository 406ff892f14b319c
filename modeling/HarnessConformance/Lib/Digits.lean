import HarnessConformance.Lib.JsonText

/-! # Digits

Numbers spelled by decimal digits, their order, and their spelling at a fixed width. -/

namespace HarnessConformance.Lib.Digits
set_option autoImplicit false

/-! ## Values -/

section
variable {u v x y : List Char}

def AreDigits (u : List Char) : Prop := ∀ c ∈ u, c.isDigit = true

theorem foldl_digits (n : ℕ) (u : List Char) :
    u.foldl (fun n c => 10 * n + (c.toNat - '0'.toNat)) n = n * 10 ^ u.length + Json.natOfDigits u := by
  induction u generalizing n with
  | nil => simp [Json.natOfDigits]
  | cons c u ih =>
    rw [Json.natOfDigits, List.foldl_cons, List.foldl_cons, ih, ih, List.length_cons, Nat.pow_succ]
    ring

theorem natOfDigits_cons (c : Char) (u : List Char) :
    Json.natOfDigits (c :: u) = (c.toNat - '0'.toNat) * 10 ^ u.length + Json.natOfDigits u := by
  rw [Json.natOfDigits, List.foldl_cons, foldl_digits, Nat.mul_zero, Nat.zero_add]

theorem digit_bounds {c : Char} (h : c.isDigit = true) : '0'.toNat ≤ c.toNat ∧ c.toNat ≤ '9'.toNat := by
  rw [Char.isDigit, Bool.and_eq_true, decide_eq_true_eq, decide_eq_true_eq] at h
  exact h

theorem natOfDigits_lt (hu : AreDigits u) : Json.natOfDigits u < 10 ^ u.length := by
  induction u with
  | nil => decide
  | cons c u ih =>
    obtain ⟨hc, hrest⟩ := List.forall_mem_cons.mp hu
    have hbounds := digit_bounds hc
    have hlt := ih hrest
    have hvalue : c.toNat - '0'.toNat ≤ 9 := by
      have hnine : '9'.toNat = '0'.toNat + 9 := rfl
      omega
    have hscaled := Nat.mul_le_mul_right (10 ^ u.length) hvalue
    rw [natOfDigits_cons, List.length_cons, Nat.pow_succ]
    omega

theorem lex_cons {c d : Char} (h : c :: u ≤ d :: v) : c < d ∨ (c = d ∧ u ≤ v) := by
  rcases h.lt_or_eq with hlt | heq
  · have hlex : List.Lex (· < ·) (c :: u) (d :: v) := hlt
    cases hlex with
    | cons hrest => exact .inr ⟨rfl, le_of_lt hrest⟩
    | rel hchar => exact .inl hchar
  · obtain ⟨hchar, hrest⟩ := List.cons.inj heq
    exact .inr ⟨hchar, hrest.le⟩

/-- Numbers of one width in front of two texts decide their order, or are equal. -/
theorem lex_digits (hlength : u.length = v.length) (hu : AreDigits u) (hv : AreDigits v) (h : u ++ x ≤ v ++ y) :
    Json.natOfDigits u < Json.natOfDigits v ∨ (Json.natOfDigits u = Json.natOfDigits v ∧ x ≤ y) := by
  induction u generalizing v with
  | nil =>
    obtain rfl := List.length_eq_zero_iff.mp hlength.symm
    exact .inr ⟨rfl, h⟩
  | cons c u ih =>
    cases v with
    | nil => cases hlength
    | cons d v =>
      obtain ⟨hc, hus⟩ := List.forall_mem_cons.mp hu
      obtain ⟨hd, hvs⟩ := List.forall_mem_cons.mp hv
      have hlength' : u.length = v.length := Nat.succ.inj hlength
      rw [natOfDigits_cons, natOfDigits_cons, hlength']
      rcases lex_cons h with hlt | ⟨rfl, hrest⟩
      · have hlow := natOfDigits_lt hus
        have hchars : c.toNat < d.toNat := hlt
        have hbounds := digit_bounds hc
        have hvalue : c.toNat - '0'.toNat + 1 ≤ d.toNat - '0'.toNat := by omega
        have hscaled := Nat.mul_le_mul_right (10 ^ v.length) hvalue
        rw [Nat.add_mul, Nat.one_mul] at hscaled
        rw [hlength'] at hlow
        exact .inl (by omega)
      · rcases ih hlength' hus hvs hrest with hlt | ⟨heq, hle⟩
        · exact .inl (Nat.add_lt_add_left hlt _)
        · exact .inr ⟨by rw [heq], hle⟩

end

/-! ## Fixed widths -/

/-- The last `width` digits of a number. -/
def fixed : ℕ → ℕ → List Char
  | 0, _ => []
  | width + 1, n => fixed width (n / 10) ++ [(n % 10).digitChar]

@[simp] theorem length_fixed (width n : ℕ) : (fixed width n).length = width := by
  induction width generalizing n with
  | zero => rfl
  | succ width ih => rw [fixed, List.length_append, ih, List.length_singleton]

theorem digitChar_range {d : ℕ} (h : d < 10) : d.digitChar.isDigit = true ∧ d.digitChar.toNat - '0'.toNat = d := by
  have hall : ∀ d < 10, (Nat.digitChar d).isDigit = true ∧ (Nat.digitChar d).toNat - '0'.toNat = d := by decide
  exact hall d h

theorem areDigits_fixed (width n : ℕ) : AreDigits (fixed width n) := by
  induction width generalizing n with
  | zero => exact fun c hc => absurd hc List.not_mem_nil
  | succ width ih =>
    intro c hc
    rcases List.mem_append.mp hc with hc | hc
    · exact ih _ c hc
    · rw [List.mem_singleton.mp hc]
      exact (digitChar_range (Nat.mod_lt _ (by decide))).1

theorem natOfDigits_concat (u : List Char) (c : Char) :
    Json.natOfDigits (u ++ [c]) = 10 * Json.natOfDigits u + (c.toNat - '0'.toNat) := by
  rw [Json.natOfDigits, List.foldl_append]
  rfl

theorem natOfDigits_fixed (width n : ℕ) : Json.natOfDigits (fixed width n) = n % 10 ^ width := by
  induction width generalizing n with
  | zero => rw [pow_zero, Nat.mod_one]; rfl
  | succ width ih =>
    rw [fixed, natOfDigits_concat, ih, (digitChar_range (Nat.mod_lt _ (by decide))).2, pow_succ, mul_comm (10 ^ width),
      Nat.mod_mul]
    omega

theorem digitChar_of_isDigit {c : Char} (h : c.isDigit = true) : (c.toNat - '0'.toNat).digitChar = c := by
  have hbounds := digit_bounds h
  obtain ⟨d, hd, hchar⟩ : ∃ d < 10, c.toNat = '0'.toNat + d := by
    have hnine : '9'.toNat = '0'.toNat + 9 := rfl
    exact ⟨c.toNat - '0'.toNat, by omega, by omega⟩
  have hall : ∀ d < 10, Nat.digitChar d = Char.ofNat ('0'.toNat + d) := by decide
  rw [hchar, Nat.add_sub_cancel_left, hall d hd, ← hchar, Char.ofNat_toNat]

/-- Digits are the spelling of their number at their own width. -/
theorem fixed_natOfDigits {u : List Char} (h : AreDigits u) : fixed u.length (Json.natOfDigits u) = u := by
  induction u using List.reverseRecOn with
  | nil => rfl
  | append_singleton u c ih =>
    have hc : c.isDigit = true := h c (List.mem_append_right _ (List.mem_singleton_self c))
    have hu : AreDigits u := fun d hd => h d (List.mem_append_left _ hd)
    have hsmall : c.toNat - '0'.toNat < 10 := by
      have hbounds := digit_bounds hc
      have hnine : '9'.toNat = '0'.toNat + 9 := rfl
      omega
    rw [List.length_append, List.length_singleton, fixed, natOfDigits_concat, Nat.mul_add_div (by decide),
      Nat.div_eq_of_lt hsmall, Nat.add_zero, ih hu, Nat.mul_add_mod, Nat.mod_eq_of_lt hsmall, digitChar_of_isDigit hc]

theorem fixed_zero (width : ℕ) : fixed width 0 = List.replicate width '0' := by
  induction width with
  | zero => rfl
  | succ width ih => rw [fixed, Nat.zero_div, ih, List.replicate_succ']; rfl

/-- A number of few digits is spelled with zeros in front. -/
theorem zeros_toDigits {width n : ℕ} (hwidth : 0 < width) (h : n < 10 ^ width) :
    List.replicate (width - (Nat.toDigits 10 n).length) '0' ++ Nat.toDigits 10 n = fixed width n := by
  induction width generalizing n with
  | zero => exact absurd hwidth (lt_irrefl 0)
  | succ width ih =>
    by_cases hsmall : n < 10
    · rw [Nat.toDigits_of_lt_base hsmall, fixed, Nat.div_eq_of_lt hsmall, fixed_zero, Nat.mod_eq_of_lt hsmall]
      rfl
    · have hpos : 0 < width := by
        by_contra hzero
        obtain rfl : width = 0 := by omega
        exact hsmall (by simpa using h)
      have hrest : n / 10 < 10 ^ width := Nat.div_lt_of_lt_mul (by rwa [pow_succ, mul_comm] at h)
      rw [Nat.toDigits_of_base_le (by decide) (not_lt.mp hsmall), List.length_append, List.length_singleton,
        Nat.add_sub_add_right, ← List.append_assoc, ih hpos hrest, fixed]

/-! ## Digits as bytes -/

/-- The byte of an ASCII character. -/
def asciiByte (c : Char) : UInt8 := UInt8.ofNat c.toNat

def isAsciiDigit (b : UInt8) : Bool := 48 ≤ b.toNat ∧ b.toNat ≤ 57

theorem ascii_of_isDigit {c : Char} (h : c.isDigit = true) : c.toNat < 128 := by
  have hbounds := digit_bounds h
  have hnine : '9'.toNat = 57 := rfl
  omega

theorem toNat_asciiByte {c : Char} (h : c.isDigit = true) :
    (asciiByte c).toNat = c.toNat ∧ 48 ≤ c.toNat ∧ c.toNat ≤ 57 := by
  have hbounds := digit_bounds h
  have hzero : '0'.toNat = 48 := rfl
  have hnine : '9'.toNat = 57 := rfl
  refine ⟨?_, by omega, by omega⟩
  rw [asciiByte, UInt8.toNat_ofNat']
  omega

theorem isAsciiDigit_asciiByte {c : Char} (h : c.isDigit = true) : isAsciiDigit (asciiByte c) = true := by
  obtain ⟨hbyte, hlow, hhigh⟩ := toNat_asciiByte h
  simp [isAsciiDigit, hbyte, hlow, hhigh]

/-- The value of digits as bytes. -/
def byteValue (digits : List UInt8) : ℕ := digits.foldl (fun n b => 10 * n + (b.toNat - 48)) 0

theorem byteValue_concat (digits : List UInt8) (b : UInt8) : byteValue (digits ++ [b]) = 10 * byteValue digits + (b.toNat - 48) := by
  rw [byteValue, List.foldl_append]
  rfl

theorem byteValue_map {u : List Char} (h : AreDigits u) : byteValue (u.map asciiByte) = Json.natOfDigits u := by
  induction u using List.reverseRecOn with
  | nil => rfl
  | append_singleton u c ih =>
    have hc : c.isDigit = true := h c (List.mem_append_right _ (List.mem_singleton_self c))
    have hu : AreDigits u := fun d hd => h d (List.mem_append_left _ hd)
    have hzero : '0'.toNat = 48 := rfl
    rw [List.map_append, List.map_singleton, byteValue_concat, natOfDigits_concat, ih hu, (toNat_asciiByte hc).1, hzero]

theorem byteValue_lt {digits : List UInt8} (h : digits.all isAsciiDigit = true) : byteValue digits < 10 ^ digits.length := by
  induction digits using List.reverseRecOn with
  | nil => decide
  | append_singleton digits b ih =>
    rw [List.all_append, Bool.and_eq_true] at h
    have hb : 48 ≤ b.toNat ∧ b.toNat ≤ 57 := by simpa [isAsciiDigit] using h.2
    have hlt := ih h.1
    rw [byteValue_concat, List.length_append, List.length_singleton, pow_succ]
    omega

end HarnessConformance.Lib.Digits
