import HarnessConformance.Crypto.Field

/-! # Decoded points

`_xrecover` takes the root of a square, and of anything else it returns the root of another number.
The re-encoding looks only at the ordinate and the sign, so the points that `_decode_point` returns
lie on the curve exactly when `rootOf` of their ordinate is a square. -/

namespace HarnessConformance.Crypto
open Lib Lib.Outcome Lib.Lines Lib.LittleEndian Lib.Primality
set_option autoImplicit false

/-- `-x^2 + y^2 = 1 + D x^2 y^2` modulo `Q`. -/
def OnCurve (point : Point) : Prop :=
  (-point.1 ^ 2 + point.2 ^ 2) % Q = (1 + D * point.1 ^ 2 * point.2 ^ 2) % Q

instance (point : Point) : Decidable (OnCurve point) := inferInstanceAs (Decidable (_ = _))

/-- Coordinates that are reduced. -/
def Reduced (point : Point) : Prop := (0 ≤ point.1 ∧ point.1 < Q) ∧ 0 ≤ point.2 ∧ point.2 < Q

/-- A reduced point of the curve, of no small order. -/
structure CurvePoint (point : Point) : Prop where
  onCurve : OnCurve point
  reduced : Reduced point
  order : scalarMult 8 point ≠ neutral

/-- Euler's criterion for `rootOf y`: some point of the curve has this ordinate. -/
def HasRoot (y : ℤ) : Prop := power (rootOf y) ((Q - 1) / 2) Q ≠ Q - 1

instance (y : ℤ) : Decidable (HasRoot y) := inferInstanceAs (Decidable (_ ≠ _))

theorem hasRoot_iff (y : ℤ) : HasRoot y ↔ IsSquare (rootOf y : F) := (isSquare_iff_power _).symm

/-! ## The root -/

theorem cast_rootOf (y : ℤ) : (rootOf y : F) = ((y : F) ^ 2 - 1) / (D * y * y + 1) := by
  have hinverse := cast_fermat (D * y * y + 1)
  rw [rootOf, Int.cast_mul, hinverse, div_eq_mul_inv]
  push_cast
  ring

theorem onCurve_iff (point : Point) : OnCurve point ↔ (point.1 : F) ^ 2 = rootOf point.2 := by
  have hfield : OnCurve point ↔ -(point.1 : F) ^ 2 + (point.2 : F) ^ 2 = 1 + D * point.1 ^ 2 * point.2 ^ 2 := by
    rw [OnCurve, ← cast_eq_iff]
    push_cast
    rfl
  rw [hfield, cast_rootOf, eq_div_iff (denominator_ne_zero _)]
  constructor
  · intro h
    linear_combination -h
  · intro h
    linear_combination -h

/-- The first candidate squares to the number or to its negative, when the number is a square. -/
theorem candidate_sq {a : F} (h : IsSquare a) : (a ^ ((Q + 3) / 8)) ^ 2 = a ∨ (a ^ ((Q + 3) / 8)) ^ 2 = -a := by
  have hsq : (a ^ ((Q + 3) / 8)) ^ 2 = a * a ^ ((Q - 1) / 4) := by
    rw [← pow_mul, ← pow_succ']
    congr 1
  rw [hsq]
  by_cases ha : a = 0
  · simp [ha]
  · have hone : a ^ (Q / 2) = 1 := (ZMod.euler_criterion Q ha).mp h
    have hquarter : a ^ ((Q - 1) / 4) * a ^ ((Q - 1) / 4) = 1 := by
      rw [← pow_add, ← hone]
      congr 1
    rcases mul_self_eq_one_iff.mp hquarter with hsign | hsign
    · simp [hsign]
    · simp [hsign]

/-- `_xrecover` before the parity is chosen. -/
def candidate (xx : ℤ) : ℤ :=
  let x := power xx ((Q + 3) / 8) Q
  if (x * x - xx) % Q ≠ 0 then x * I % Q else x

theorem candidate_eq (xx : ℤ) : candidate xx =
    if (power xx ((Q + 3) / 8) Q * power xx ((Q + 3) / 8) Q - xx) % Q ≠ 0 then power xx ((Q + 3) / 8) Q * I % Q
    else power xx ((Q + 3) / 8) Q := rfl

theorem candidate_range (xx : ℤ) : 0 ≤ candidate xx ∧ candidate xx < Q := by
  rw [candidate_eq]
  split_ifs
  · exact emod_range _
  · exact power_range _ _

/-- The candidate is a root exactly when there is one. -/
theorem cast_candidate_sq (xx : ℤ) : (candidate xx : F) ^ 2 = xx ↔ IsSquare (xx : F) := by
  refine ⟨fun h => ⟨candidate xx, by rw [← h, sq]⟩, fun h => ?_⟩
  have hfirst := candidate_sq h
  have hfailed : (power xx ((Q + 3) / 8) Q * power xx ((Q + 3) / 8) Q - xx) % Q ≠ 0 ↔
      ¬ ((xx : F) ^ ((Q + 3) / 8)) ^ 2 = xx := by
    rw [ne_eq, ← cast_eq_zero_iff, Int.cast_sub, Int.cast_mul, cast_power, sub_eq_zero, sq]
  rw [candidate_eq]
  by_cases hroot : ((xx : F) ^ ((Q + 3) / 8)) ^ 2 = xx
  · rw [if_neg (fun hf => hfailed.mp hf hroot), cast_power, hroot]
  · have hminus := hfirst.resolve_left hroot
    rw [if_pos (hfailed.mpr hroot), cast_emod, Int.cast_mul, mul_pow, cast_power, hminus, cast_I_sq]
    ring

theorem xrecover_eq (y : ℤ) :
    xrecover y = if candidate (rootOf y) % 2 = 1 then Q - candidate (rootOf y) else candidate (rootOf y) := rfl

/-- The root with the other parity is the negative one. -/
theorem cast_sub_sq (x : ℤ) : ((Q - x : ℤ) : F) ^ 2 = (x : F) ^ 2 := by
  rw [Int.cast_sub, cast_Q, zero_sub, neg_sq]

theorem cast_xrecover_sq (y : ℤ) : (xrecover y : F) ^ 2 = rootOf y ↔ HasRoot y := by
  rw [hasRoot_iff, ← cast_candidate_sq, xrecover_eq]
  split_ifs
  · rw [cast_sub_sq]
  · rfl

theorem xrecover_range (y : ℤ) : (0 ≤ xrecover y ∧ xrecover y < Q) ∧ xrecover y % 2 = 0 := by
  obtain ⟨hlow, hhigh⟩ := candidate_range (rootOf y)
  have hodd : (Q : ℤ) % 2 = 1 := by decide
  rw [xrecover_eq]
  split_ifs with hparity
  · omega
  · omega

/-! ## The decoded point -/

theorem abscissa_eq (y : ℤ) (sign : ℕ) : abscissa y sign = if xrecover y % 2 ≠ sign then Q - xrecover y else xrecover y := rfl

theorem cast_abscissa_sq (y : ℤ) (sign : ℕ) : (abscissa y sign : F) ^ 2 = rootOf y ↔ HasRoot y := by
  rw [← cast_xrecover_sq, abscissa_eq]
  split_ifs
  · rw [cast_sub_sq]
  · rfl

/-- The abscissa is reduced, but for `Q` in the place of 0. -/
theorem abscissa_range (y : ℤ) (sign : ℕ) : 0 ≤ abscissa y sign ∧ (abscissa y sign < Q ∨ xrecover y = 0 ∧ abscissa y sign = Q) := by
  obtain ⟨⟨hlow, hhigh⟩, -⟩ := xrecover_range y
  rw [abscissa_eq]
  split_ifs
  · omega
  · omega

/-- Only the points of order 1 and 2 have the abscissa 0. -/
theorem ordinate_of_xrecover {y : ℤ} (hy : 0 ≤ y ∧ y < Q) (h : xrecover y = 0) : y = 1 ∨ y = Q - 1 := by
  have hcandidate : candidate (rootOf y) = 0 := by
    obtain ⟨hlow, hhigh⟩ := candidate_range (rootOf y)
    rw [xrecover_eq] at h
    split_ifs at h
    · omega
    · exact h
  have hI : (I : F) ≠ 0 := fun hzero => by
    have hsq := cast_I_sq
    simp [hzero] at hsq
  have hroot : (rootOf y : F) = 0 := by
    have hcast : (candidate (rootOf y) : F) = 0 := by rw [hcandidate, Int.cast_zero]
    rw [candidate_eq] at hcast
    split_ifs at hcast
    · rw [cast_emod, Int.cast_mul, cast_power, mul_eq_zero] at hcast
      exact eq_zero_of_pow_eq_zero (hcast.resolve_right hI)
    · rw [cast_power] at hcast
      exact eq_zero_of_pow_eq_zero hcast
  rw [cast_rootOf, div_eq_zero_iff, or_iff_left (denominator_ne_zero _), sub_eq_zero, sq, mul_self_eq_one_iff] at hroot
  have hself : y % Q = y := Int.emod_eq_of_lt hy.1 hy.2
  rcases hroot with hone | hminus
  · have hcast : (y : F) = (1 : ℤ) := by rw [hone, Int.cast_one]
    rw [cast_eq_iff, hself] at hcast
    exact .inl hcast
  · have hcast : (y : F) = (-1 : ℤ) := by rw [hminus, Int.cast_neg, Int.cast_one]
    rw [cast_eq_iff, hself] at hcast
    exact .inr hcast

/-- What `_decode_point` returns. -/
theorem decodePoint_eq_ok {data : Bytes} {point : Point} : decodePoint data = .ok point ↔ data.length = 32 ∧ ordinate data < Q ∧
    point = (abscissa (ordinate data) (signBit data), (ordinate data : ℤ)) ∧ encodePoint point = .ok data ∧
      scalarMult 8 point ≠ neutral := by
  simp only [decodePoint, bind_eq_ok, conform_eq_ok, pure_eq_ok, exists_const]
  constructor
  · rintro ⟨hlength, hy, encoded, hencoded, rfl, horder, rfl⟩
    exact ⟨hlength, hy, rfl, hencoded, horder⟩
  · rintro ⟨hlength, hy, rfl, hencoded, horder⟩
    exact ⟨hlength, hy, data, hencoded, rfl, horder, rfl⟩

theorem reduced_of_decodePoint {data : Bytes} {point : Point} (h : decodePoint data = .ok point) : Reduced point := by
  obtain ⟨-, hy, rfl, -, horder⟩ := decodePoint_eq_ok.mp h
  have hrange : (0 : ℤ) ≤ ordinate data ∧ (ordinate data : ℤ) < Q := ⟨Int.natCast_nonneg _, by exact_mod_cast hy⟩
  obtain ⟨hlow, hhigh | ⟨hzero, hx⟩⟩ := abscissa_range (ordinate data) (signBit data)
  · exact ⟨⟨hlow, hhigh⟩, hrange⟩
  · rw [hx] at horder
    rcases ordinate_of_xrecover hrange hzero with h1 | h1
    · rw [h1] at horder
      exact absurd (by decide +kernel) horder
    · rw [h1] at horder
      exact absurd (by decide +kernel) horder

/-- A decoded point lies on the curve exactly when its ordinate belongs to a point. -/
theorem curvePoint_iff {data : Bytes} {point : Point} (h : decodePoint data = .ok point) :
    CurvePoint point ↔ HasRoot (ordinate data) := by
  have hreduced := reduced_of_decodePoint h
  obtain ⟨-, -, rfl, -, horder⟩ := decodePoint_eq_ok.mp h
  have hcurve : OnCurve (abscissa (ordinate data) (signBit data), (ordinate data : ℤ)) ↔ HasRoot (ordinate data) := by
    rw [onCurve_iff, cast_abscissa_sq]
  exact ⟨fun hpoint => hcurve.mp hpoint.onCurve, fun hroot => ⟨hcurve.mpr hroot, hreduced, horder⟩⟩

theorem onCurve_iff_hasRoot {data : Bytes} {point : Point} (h : decodePoint data = .ok point) :
    OnCurve point ↔ HasRoot (ordinate data) := by
  rw [← curvePoint_iff h]
  exact ⟨fun hcurve => ⟨hcurve, reduced_of_decodePoint h, (decodePoint_eq_ok.mp h).2.2.2.2⟩, CurvePoint.onCurve⟩

/-- The point that `_decode_point` returns is a point of the curve exactly when its ordinate is that of some point,
and so are the two points that `verify` adds. -/
theorem decoded_points (data : Bytes) (point : Point) (h : decodePoint data = .ok point) :
    (CurvePoint point ↔ HasRoot (ordinate data)) ∧
      ∀ (signature : Bytes) (pointR : Point), decodePoint (signature.take 32) = .ok pointR →
        (OnCurve point ∧ OnCurve pointR ↔ HasRoot (ordinate data) ∧ HasRoot (ordinate (signature.take 32))) :=
  ⟨curvePoint_iff h, fun _ _ hR => and_congr (onCurve_iff_hasRoot h) (onCurve_iff_hasRoot hR)⟩

theorem decoded_points_sample : CurvePoint (xrecover 3, 3) := by
  have hdecoded : decodePoint (3 :: List.replicate 31 0) = .ok (xrecover 3, 3) := by decide +kernel
  have hroot : HasRoot (ordinate (3 :: List.replicate 31 0)) := by decide +kernel
  exact (decoded_points _ _ hdecoded).1.mpr hroot

/-- The number 2 as 32 bytes is decoded, and no point of the curve has this ordinate. -/
theorem decoded_off_curve : ¬ ∀ data point, decodePoint data = .ok point → CurvePoint point := by
  intro h
  have hdecoded : decodePoint (2 :: List.replicate 31 0) = .ok (xrecover 2, 2) := by decide +kernel
  have hoff : ¬ OnCurve (xrecover 2, 2) := by decide +kernel
  exact hoff (h _ _ hdecoded).onCurve

end HarnessConformance.Crypto
