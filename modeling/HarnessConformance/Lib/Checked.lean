import HarnessConformance.Lib.Outcome
import HarnessConformance.Lib.Utf8

/-! # Arithmetic of 64 bits and slices of text that may panic

Signed integers of 64 bits as integers whose every result is checked, and slices of UTF-8 text, which
panic where a character would be cut. -/

namespace HarnessConformance.Lib.Checked
open Outcome Lines Utf8
set_option autoImplicit false

inductive Panic where
  | overflow
  | slice
  deriving DecidableEq, Repr

abbrev MayPanic := Except Panic

/-! ## Integers -/

def Fits (n : ℤ) : Prop := -2 ^ 63 ≤ n ∧ n < 2 ^ 63

instance (n : ℤ) : Decidable (Fits n) := inferInstanceAs (Decidable (_ ∧ _))

/-- The result of an operation on `i64`. -/
def i64 (n : ℤ) : MayPanic ℤ := if Fits n then .ok n else .error .overflow

theorem fits_of {n bound : ℤ} (hbound : bound < 2 ^ 63) (hlow : -bound ≤ n) (hhigh : n ≤ bound) : Fits n := by
  unfold Fits
  omega

/-- An operation whose result fits does not panic. -/
theorem i64_bind {α : Type} {n : ℤ} (h : Fits n) (f : ℤ → MayPanic α) : (i64 n >>= f) = f n := by
  rw [i64, if_pos h, ok_bind]

theorem i64_of {n : ℤ} (h : Fits n) : i64 n = .ok n := if_pos h

/-! ## Slices -/

/-- `is_char_boundary` -/
def isBoundary (bytes : Bytes) (index : ℕ) : Bool :=
  index = 0 ∨ index = bytes.length ∨ bytes[index]?.any fun b => b.toNat < 128 ∨ 192 ≤ b.toNat

/-- `&text[start..stop]` -/
def slice (bytes : Bytes) (start stop : ℕ) : MayPanic Bytes :=
  if start ≤ stop ∧ isBoundary bytes start ∧ isBoundary bytes stop then .ok ((bytes.take stop).drop start) else .error .slice

theorem isBoundary_of_ascii {bytes : Bytes} {index : ℕ} {b : UInt8} (hb : bytes[index]? = some b) (hascii : b.toNat < 128) :
    isBoundary bytes index = true := by
  simp [isBoundary, hb, hascii]

/-- A character is one ASCII byte, or a first byte and others that no character begins with. -/
theorem utf8EncodeChar_shape (c : Char) : ∃ b rest, String.utf8EncodeChar c = b :: rest ∧
    (b.toNat < 128 ∧ rest = [] ∨ 192 ≤ b.toNat ∧ ∀ x ∈ rest, 128 ≤ x.toNat) := by
  unfold String.utf8EncodeChar
  dsimp only
  split
  · refine ⟨_, _, rfl, .inl ⟨?_, rfl⟩⟩
    rw [UInt8.toNat_ofNat']
    omega
  · split
    · refine ⟨_, _, rfl, .inr ⟨?_, ?_⟩⟩
      · rw [UInt8.toNat_ofNat']
        omega
      · simp only [List.forall_mem_cons, List.not_mem_nil, false_implies, implies_true, and_true, UInt8.toNat_ofNat']
        omega
    · split
      · refine ⟨_, _, rfl, .inr ⟨?_, ?_⟩⟩
        · rw [UInt8.toNat_ofNat']
          omega
        · simp only [List.forall_mem_cons, List.not_mem_nil, false_implies, implies_true, and_true, UInt8.toNat_ofNat']
          omega
      · refine ⟨_, _, rfl, .inr ⟨?_, ?_⟩⟩
        · rw [UInt8.toNat_ofNat']
          omega
        · simp only [List.forall_mem_cons, List.not_mem_nil, false_implies, implies_true, and_true, UInt8.toNat_ofNat']
          omega

theorem encodeText_cons (c : Char) (text : List Char) : encodeText (c :: text) = String.utf8EncodeChar c ++ encodeText text := rfl

theorem first_of_encodeText (text : List Char) : ∀ b ∈ (encodeText text)[0]?, b.toNat < 128 ∨ 192 ≤ b.toNat := by
  cases text with
  | nil => simp [encodeText]
  | cons c text =>
    obtain ⟨first, rest, hchar, hshape⟩ := utf8EncodeChar_shape c
    rw [encodeText_cons, hchar]
    intro b hb
    obtain rfl : first = b := Option.some.inj hb
    exact hshape.imp And.left And.left

/-- Behind an ASCII byte a character begins, or the text ends. -/
theorem after_ascii {text : List Char} {i : ℕ} {b : UInt8} (hb : (encodeText text)[i]? = some b) (hascii : b.toNat < 128) :
    ∀ d ∈ (encodeText text)[i + 1]?, d.toNat < 128 ∨ 192 ≤ d.toNat := by
  induction text generalizing i with
  | nil => simp [encodeText] at hb
  | cons c text ih =>
    obtain ⟨first, rest, hchar, hshape⟩ := utf8EncodeChar_shape c
    rw [encodeText_cons] at hb ⊢
    by_cases hinside : i < (String.utf8EncodeChar c).length
    · rw [List.getElem?_append_left hinside] at hb
      have hmem := List.mem_of_getElem? hb
      rw [hchar] at hmem hinside ⊢
      rcases hshape with ⟨-, rfl⟩ | ⟨hfirst, hrest⟩
      · obtain rfl : i = 0 := by simpa using hinside
        exact first_of_encodeText text
      · rcases List.mem_cons.mp hmem with rfl | hmem
        · omega
        · have hhigh := hrest b hmem
          omega
    · obtain ⟨j, rfl⟩ := Nat.exists_eq_add_of_le (not_lt.mp hinside)
      rw [List.getElem?_append_right (by omega), Nat.add_sub_cancel_left] at hb
      rw [Nat.add_assoc, List.getElem?_append_right (by omega), Nat.add_sub_cancel_left]
      exact ih hb

theorem isBoundary_after_ascii {text : List Char} {i : ℕ} {b : UInt8} (hb : (encodeText text)[i]? = some b)
    (hascii : b.toNat < 128) : isBoundary (encodeText text) (i + 1) = true := by
  have hlt : i < (encodeText text).length := (List.getElem?_eq_some_iff.mp hb).1
  cases hd : (encodeText text)[i + 1]? with
  | none =>
    have hle := List.getElem?_eq_none_iff.mp hd
    have hend : i + 1 = (encodeText text).length := by omega
    simp [isBoundary, hend]
  | some d =>
    have hnext := after_ascii hb hascii d (by rw [hd]; rfl)
    simp [isBoundary, hd, hnext]

/-- Between ASCII bytes, and from the start of a text, a slice cuts no character. -/
theorem slice_of_ascii {text : List Char} {start stop : ℕ} (hle : start ≤ stop)
    (hstart : start = 0 ∨ ∃ i b, start = i + 1 ∧ (encodeText text)[i]? = some b ∧ b.toNat < 128)
    {b : UInt8} (hb : (encodeText text)[stop]? = some b) (hascii : b.toNat < 128) :
    slice (encodeText text) start stop = .ok (((encodeText text).take stop).drop start) := by
  have hfirst : isBoundary (encodeText text) start = true := by
    rcases hstart with rfl | ⟨i, c, rfl, hc, hsmall⟩
    · simp [isBoundary]
    · exact isBoundary_after_ascii hc hsmall
  exact if_pos ⟨hle, hfirst, isBoundary_of_ascii hb hascii⟩

end HarnessConformance.Lib.Checked
