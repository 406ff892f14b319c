import HarnessConformance.Lib.Lines

/-! # Little-endian numbers

`toLittle` and `ofLittle` are inverse to each other on byte strings of a length and the numbers
that fit into them. -/

namespace HarnessConformance.Lib.LittleEndian
open Lines
set_option autoImplicit false

/-- The lowest `length` bytes of `n`, the lowest first. -/
def toLittle : ℕ → ℕ → Bytes
  | 0, _ => []
  | length + 1, n => UInt8.ofNat (n % 256) :: toLittle length (n / 256)

def ofLittle : Bytes → ℕ
  | [] => 0
  | b :: bytes => b.toNat + 256 * ofLittle bytes

@[simp] theorem length_toLittle (length n : ℕ) : (toLittle length n).length = length := by
  induction length generalizing n with
  | zero => rfl
  | succ length ih => rw [toLittle, List.length_cons, ih]

theorem ofLittle_lt (bytes : Bytes) : ofLittle bytes < 256 ^ bytes.length := by
  induction bytes with
  | nil => decide
  | cons b bytes ih =>
    have hb := b.toNat_lt
    rw [ofLittle, List.length_cons, pow_succ]
    omega

theorem toLittle_ofLittle (bytes : Bytes) : toLittle bytes.length (ofLittle bytes) = bytes := by
  induction bytes with
  | nil => rfl
  | cons b bytes ih =>
    have hb := b.toNat_lt
    have hmod : (b.toNat + 256 * ofLittle bytes) % 256 = b.toNat := by omega
    have hdiv : (b.toNat + 256 * ofLittle bytes) / 256 = ofLittle bytes := by omega
    rw [ofLittle, List.length_cons, toLittle, hmod, hdiv, ih, UInt8.ofNat_toNat]

theorem ofLittle_toLittle {length n : ℕ} (h : n < 256 ^ length) : ofLittle (toLittle length n) = n := by
  induction length generalizing n with
  | zero =>
    rw [pow_zero] at h
    rw [toLittle, ofLittle]
    omega
  | succ length ih =>
    have hbyte : (UInt8.ofNat (n % 256)).toNat = n % 256 := by simp
    have hrest : n / 256 < 256 ^ length := by
      rw [pow_succ] at h
      omega
    rw [toLittle, ofLittle, ih hrest, hbyte]
    omega

theorem ofLittle_inj {x y : Bytes} (hlength : x.length = y.length) (h : ofLittle x = ofLittle y) : x = y := by
  rw [← toLittle_ofLittle x, ← toLittle_ofLittle y, hlength, h]

end HarnessConformance.Lib.LittleEndian
