import HarnessConformance.Lib.Lines

/-! # Base64

Three bytes are four characters; one or two bytes at the end are two or three. The decoder takes both alphabets and
drops the bits that no byte has, so it is a left inverse of the encoder and no more. -/

namespace HarnessConformance.Lib.Base64
open Lines
set_option autoImplicit false

/-! ## Characters -/

/-- The character of six bits in the alphabet for names of files. -/
def charOf (n : ℕ) : Char :=
  if n < 26 then Char.ofNat (65 + n) else if n < 52 then Char.ofNat (71 + n) else if n < 62 then Char.ofNat (n - 4)
  else if n = 62 then '-' else '_'

/-- The six bits of a character of either alphabet. -/
def sextetOf (c : Char) : Option ℕ :=
  if c.isUpper then some (c.toNat - 65) else if c.isLower then some (c.toNat - 71) else if c.isDigit then some (c.toNat + 4)
  else if c = '-' ∨ c = '+' then some 62 else if c = '_' ∨ c = '/' then some 63 else none

theorem sextetOf_charOf {n : ℕ} (h : n < 64) : sextetOf (charOf n) = some n := by
  have hall : ∀ n < 64, sextetOf (charOf n) = some n := by decide +kernel
  exact hall n h

theorem charOf_ascii {n : ℕ} (h : n < 64) : (charOf n).toNat < 128 ∧ charOf n ≠ '=' := by
  have hall : ∀ n < 64, (charOf n).toNat < 128 ∧ charOf n ≠ '=' := by decide +kernel
  exact hall n h

/-! ## Groups -/

/-- The sextets of a byte string. -/
def sextets : Bytes → List ℕ
  | a :: b :: c :: rest =>
    a.toNat / 4 :: (a.toNat % 4 * 16 + b.toNat / 16) :: (b.toNat % 16 * 4 + c.toNat / 64) :: c.toNat % 64 :: sextets rest
  | [a, b] => [a.toNat / 4, a.toNat % 4 * 16 + b.toNat / 16, b.toNat % 16 * 4]
  | [a] => [a.toNat / 4, a.toNat % 4 * 16]
  | [] => []

/-- The bytes of sextets; a single one at the end is refused. -/
def bytesOf : List ℕ → Option Bytes
  | w :: x :: y :: z :: rest => do
    let bytes ← bytesOf rest
    pure (UInt8.ofNat (w * 4 + x / 16) :: UInt8.ofNat (x % 16 * 16 + y / 4) :: UInt8.ofNat (y % 4 * 64 + z) :: bytes)
  | [w, x, y] => some [UInt8.ofNat (w * 4 + x / 16), UInt8.ofNat (x % 16 * 16 + y / 4)]
  | [w, x] => some [UInt8.ofNat (w * 4 + x / 16)]
  | [_] => none
  | [] => some []

attribute [grind =] sextets bytesOf

/-- The text of a byte string, without padding. -/
def encode (bytes : Bytes) : String := String.ofList ((sextets bytes).map charOf)

def decode (text : String) : Option Bytes := do
  let values ← text.toList.mapM sextetOf
  bytesOf values

theorem sextets_lt (bytes : Bytes) : ∀ n ∈ sextets bytes, n < 64 := by
  induction bytes using sextets.induct with
  | case1 a b c rest ih =>
    have ha := a.toNat_lt
    have hb := b.toNat_lt
    have hc := c.toNat_lt
    simp only [sextets, List.forall_mem_cons]
    exact ⟨by omega, by omega, by omega, by omega, ih⟩
  | case2 a b =>
    have ha := a.toNat_lt
    have hb := b.toNat_lt
    simp only [sextets, List.forall_mem_cons]
    exact ⟨by omega, by omega, by omega, by simp⟩
  | case3 a =>
    have ha := a.toNat_lt
    simp only [sextets, List.forall_mem_cons]
    exact ⟨by omega, by omega, by simp⟩
  | case4 => simp [sextets]

theorem bytesOf_sextets (bytes : Bytes) : bytesOf (sextets bytes) = some bytes := by
  have hbyte {n : ℕ} {b : UInt8} (h : n = b.toNat) : UInt8.ofNat n = b := by rw [h, UInt8.ofNat_toNat]
  induction bytes using sextets.induct with
  | case1 a b c rest ih =>
    have hb := b.toNat_lt
    have hc := c.toNat_lt
    rw [sextets, bytesOf, ih, hbyte (b := a) (by omega), hbyte (b := b) (by omega), hbyte (b := c) (by omega)]
    rfl
  | case2 a b =>
    have hb := b.toNat_lt
    rw [sextets, bytesOf, hbyte (b := a) (by omega), hbyte (b := b) (by omega)]
  | case3 a => rw [sextets, bytesOf, hbyte (b := a) (by omega)]
  | case4 => rfl

theorem mapM_sextetOf {values : List ℕ} (h : ∀ n ∈ values, n < 64) : (values.map charOf).mapM sextetOf = some values := by
  induction values with
  | nil => rfl
  | cons n values ih =>
    rw [List.forall_mem_cons] at h
    rw [List.map_cons, List.mapM_cons, sextetOf_charOf h.1, ih h.2]
    rfl

theorem decode_encode (bytes : Bytes) : decode (encode bytes) = some bytes := by
  rw [decode, encode, String.toList_ofList, mapM_sextetOf (sextets_lt bytes)]
  exact bytesOf_sextets bytes

theorem encode_injective : Function.Injective encode := by
  intro x y h
  have hsome : some x = some y := by rw [← decode_encode, h, decode_encode]
  exact Option.some.inj hsome

theorem length_sextets (bytes : Bytes) : (sextets bytes).length = (bytes.length * 4 + 2) / 3 := by
  induction bytes using sextets.induct with
  | case1 a b c rest ih =>
    simp only [sextets, List.length_cons, ih]
    omega
  | case2 a b => simp [sextets]
  | case3 a => simp [sextets]
  | case4 => rfl

theorem length_encode (bytes : Bytes) : (encode bytes).length = (bytes.length * 4 + 2) / 3 := by
  rw [encode, String.length_ofList, List.length_map, length_sextets]

theorem encode_ascii (bytes : Bytes) : ∀ c ∈ (encode bytes).toList, c.toNat < 128 ∧ c ≠ '=' := by
  rw [encode, String.toList_ofList, List.forall_mem_map]
  exact fun n hn => charOf_ascii (sextets_lt bytes n hn)

/-! ## Padding -/

/-- The same six bits in the standard alphabet. -/
def standardOf (c : Char) : Char := if c = '-' then '+' else if c = '_' then '/' else c

/-- The text of a byte string in the standard alphabet, padded to whole groups. -/
def encodePadded (bytes : Bytes) : String :=
  String.ofList ((encode bytes).toList.map standardOf ++ List.replicate ((3 - bytes.length % 3) % 3) '=')

/-- Whole groups of the standard alphabet, with the padding behind them only. -/
def decodePadded (text : String) : Option Bytes :=
  if text.length % 4 ≠ 0 ∨ '-' ∈ text.toList ∨ '_' ∈ text.toList then none
  else decode (String.ofList (text.toList.reverse.dropWhile (· = '=')).reverse)

end HarnessConformance.Lib.Base64
