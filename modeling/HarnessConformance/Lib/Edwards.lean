import Mathlib

/-! # Twisted Edwards curves

The points of `a x^2 + y^2 = 1 + d x^2 y^2` over a field of odd characteristic. Where `a` is a square other
than 0 and `d` is none, the sum of two points is defined everywhere and the points are a commutative
group. -/

namespace HarnessConformance.Lib
set_option autoImplicit false

/-- The coefficients of a curve on which the addition has no exceptions. -/
structure Edwards (F : Type) [Field F] where
  a : F
  d : F
  root : F
  two_ne_zero : (2 : F) ≠ 0
  root_sq : root ^ 2 = a
  root_ne_zero : root ≠ 0
  not_isSquare : ¬ IsSquare d

namespace Edwards

variable {F : Type} [Field F] {E : Edwards F}

@[ext] structure Point (E : Edwards F) where
  x : F
  y : F
  onCurve : E.a * x ^ 2 + y ^ 2 = 1 + E.d * x ^ 2 * y ^ 2

/-- What the denominators of a sum differ from 1 by. -/
def cross (P Q : E.Point) : F := E.d * P.x * Q.x * P.y * Q.y

theorem cross_comm (P Q : E.Point) : cross P Q = cross Q P := by
  unfold cross
  ring

/-! ## The addition has no exceptions -/

/-- A factor that does not vanish would make `d` a square. -/
theorem isSquare_of_factor {P Q : E.Point} {s : F} (hs : s ^ 2 = 1) (hcross : cross P Q ^ 2 = 1)
    (hP : P.x * P.y ≠ 0) (hne : E.root * Q.x + s * Q.y ≠ 0) : IsSquare E.d := by
  have hsquare : (E.root * P.x + s * cross P Q * P.y) ^ 2 = E.d * (P.x * P.y * (E.root * Q.x + s * Q.y)) ^ 2 := by
    have hroot := E.root_sq
    have honP := P.onCurve
    have honQ := Q.onCurve
    have hsum : E.d * P.x ^ 2 * P.y ^ 2 * (E.a * Q.x ^ 2 + Q.y ^ 2) = E.a * P.x ^ 2 + P.y ^ 2 := by
      rw [honQ, honP]
      unfold cross at hcross
      linear_combination hcross
    have hmiddle : cross P Q * (P.x * P.y) = E.d * P.x ^ 2 * P.y ^ 2 * (Q.x * Q.y) := by
      unfold cross
      ring
    linear_combination (P.x ^ 2 - E.d * P.x ^ 2 * P.y ^ 2 * Q.x ^ 2) * hroot - hsum + 2 * E.root * s * hmiddle +
      (cross P Q ^ 2 * P.y ^ 2 - E.d * P.x ^ 2 * P.y ^ 2 * Q.y ^ 2) * hs + P.y ^ 2 * hcross
  refine ⟨(E.root * P.x + s * cross P Q * P.y) / (P.x * P.y * (E.root * Q.x + s * Q.y)), ?_⟩
  have hdenominator := mul_ne_zero hP hne
  rw [← sq, div_pow, hsquare, mul_div_cancel_right₀ _ (pow_ne_zero 2 hdenominator)]

theorem cross_sq_ne_one (P Q : E.Point) : cross P Q ^ 2 ≠ 1 := by
  intro hcross
  have hne : cross P Q ≠ 0 := by
    intro hzero
    rw [hzero] at hcross
    simp at hcross
  have hP : P.x * P.y ≠ 0 := by
    intro hzero
    refine hne ?_
    unfold cross
    linear_combination E.d * Q.x * Q.y * hzero
  have hy : Q.y ≠ 0 := by
    intro hzero
    refine hne ?_
    unfold cross
    rw [hzero, mul_zero]
  have hplus : E.root * Q.x + 1 * Q.y = 0 := by
    by_contra h
    exact E.not_isSquare (isSquare_of_factor (one_pow 2) hcross hP h)
  have hminus : E.root * Q.x + -1 * Q.y = 0 := by
    by_contra h
    exact E.not_isSquare (isSquare_of_factor neg_one_sq hcross hP h)
  have hdouble : 2 * Q.y = 0 := by linear_combination hplus - hminus
  exact hy ((mul_eq_zero.mp hdouble).resolve_left E.two_ne_zero)

theorem one_add_cross_ne_zero (P Q : E.Point) : 1 + cross P Q ≠ 0 := by
  intro h
  refine cross_sq_ne_one P Q ?_
  linear_combination (cross P Q - 1) * h

theorem one_sub_cross_ne_zero (P Q : E.Point) : 1 - cross P Q ≠ 0 := by
  intro h
  refine cross_sq_ne_one P Q ?_
  linear_combination -(cross P Q + 1) * h

/-! ## Sums -/

instance : Zero E.Point := ⟨⟨0, 1, by ring⟩⟩

instance : Neg E.Point := ⟨fun P => ⟨-P.x, P.y, by linear_combination P.onCurve⟩⟩

theorem sum_onCurve (P Q : E.Point) :
    E.a * ((P.x * Q.y + Q.x * P.y) / (1 + cross P Q)) ^ 2 + ((P.y * Q.y - E.a * P.x * Q.x) / (1 - cross P Q)) ^ 2 =
      1 + E.d * ((P.x * Q.y + Q.x * P.y) / (1 + cross P Q)) ^ 2 * ((P.y * Q.y - E.a * P.x * Q.x) / (1 - cross P Q)) ^ 2 := by
  have hplus := one_add_cross_ne_zero P Q
  have hminus := one_sub_cross_ne_zero P Q
  have hP := P.onCurve
  have hQ := Q.onCurve
  field_simp
  unfold cross
  grind

instance : Add E.Point :=
  ⟨fun P Q => ⟨(P.x * Q.y + Q.x * P.y) / (1 + cross P Q), (P.y * Q.y - E.a * P.x * Q.x) / (1 - cross P Q), sum_onCurve P Q⟩⟩

@[simp] theorem zero_x : (0 : E.Point).x = 0 := rfl
@[simp] theorem zero_y : (0 : E.Point).y = 1 := rfl
@[simp] theorem neg_x (P : E.Point) : (-P).x = -P.x := rfl
@[simp] theorem neg_y (P : E.Point) : (-P).y = P.y := rfl

theorem add_x (P Q : E.Point) : (P + Q).x = (P.x * Q.y + Q.x * P.y) / (1 + cross P Q) := rfl
theorem add_y (P Q : E.Point) : (P + Q).y = (P.y * Q.y - E.a * P.x * Q.x) / (1 - cross P Q) := rfl

/-! ## The group -/

section
variable (P Q R : E.Point)

/-- The product that the denominators of `(P + Q) + R` hold, over those of `P + Q`. -/
def tripleCross : F := E.d * (P.x * Q.y + Q.x * P.y) * (P.y * Q.y - E.a * P.x * Q.x) * R.x * R.y

theorem cross_add : cross (P + Q) R = tripleCross P Q R / ((1 + cross P Q) * (1 - cross P Q)) := by
  have hplus := one_add_cross_ne_zero P Q
  have hminus := one_sub_cross_ne_zero P Q
  rw [cross, add_x, add_y, tripleCross]
  field_simp

theorem triple_add_ne_zero : (1 + cross P Q) * (1 - cross P Q) + tripleCross P Q R ≠ 0 := by
  have hplus := one_add_cross_ne_zero P Q
  have hminus := one_sub_cross_ne_zero P Q
  have hsum := one_add_cross_ne_zero (P + Q) R
  rw [cross_add] at hsum
  field_simp at hsum
  intro h
  rw [h, zero_div] at hsum
  exact hsum rfl

theorem triple_sub_ne_zero : (1 + cross P Q) * (1 - cross P Q) - tripleCross P Q R ≠ 0 := by
  have hplus := one_add_cross_ne_zero P Q
  have hminus := one_sub_cross_ne_zero P Q
  have hsum := one_sub_cross_ne_zero (P + Q) R
  rw [cross_add] at hsum
  field_simp at hsum
  intro h
  rw [h, zero_div] at hsum
  exact hsum rfl

theorem add_add_x : (P + Q + R).x =
    ((P.x * Q.y + Q.x * P.y) * (1 - cross P Q) * R.y + R.x * (P.y * Q.y - E.a * P.x * Q.x) * (1 + cross P Q)) /
      ((1 + cross P Q) * (1 - cross P Q) + tripleCross P Q R) := by
  have hplus := one_add_cross_ne_zero P Q
  have hminus := one_sub_cross_ne_zero P Q
  have htriple := triple_add_ne_zero P Q R
  have hsum := one_add_cross_ne_zero (P + Q) R
  rw [add_x, div_eq_div_iff hsum htriple, cross_add, add_x, add_y]
  field_simp

theorem add_add_y : (P + Q + R).y =
    ((P.y * Q.y - E.a * P.x * Q.x) * (1 + cross P Q) * R.y - E.a * (P.x * Q.y + Q.x * P.y) * (1 - cross P Q) * R.x) /
      ((1 + cross P Q) * (1 - cross P Q) - tripleCross P Q R) := by
  have hplus := one_add_cross_ne_zero P Q
  have hminus := one_sub_cross_ne_zero P Q
  have htriple := triple_sub_ne_zero P Q R
  have hsum := one_sub_cross_ne_zero (P + Q) R
  rw [add_y, div_eq_div_iff hsum htriple, cross_add, add_x, add_y]
  field_simp

theorem add_comm' : P + Q = Q + P := by
  ext
  · rw [add_x, add_x, cross_comm]
    ring
  · rw [add_y, add_y, cross_comm]
    ring

/-- A polynomial identity modulo the three curve equations. -/
theorem add_rotate' : P + Q + R = Q + R + P := by
  have hP := P.onCurve
  have hQ := Q.onCurve
  have hR := R.onCurve
  ext
  · rw [add_add_x, add_add_x, div_eq_div_iff (triple_add_ne_zero P Q R) (triple_add_ne_zero Q R P)]
    unfold cross tripleCross
    grind
  · rw [add_add_y, add_add_y, div_eq_div_iff (triple_sub_ne_zero P Q R) (triple_sub_ne_zero Q R P)]
    unfold cross tripleCross
    grind

end

instance : AddCommGroup E.Point where
  add_assoc P Q R := by rw [add_rotate', add_comm']
  zero_add P := by
    ext
    · simp [add_x, cross]
    · simp [add_y, cross]
  add_zero P := by
    ext
    · simp [add_x, cross]
    · simp [add_y, cross]
  neg_add_cancel P := by
    have hminus := one_sub_cross_ne_zero (-P) P
    ext
    · rw [add_x, neg_x, neg_y, zero_x, div_eq_zero_iff]
      left
      ring
    · rw [add_y, zero_y, div_eq_one_iff_eq hminus, cross, neg_x, neg_y]
      linear_combination P.onCurve
  add_comm := add_comm'
  nsmul := nsmulRec
  zsmul := zsmulRec

/-! ## Projective coordinates -/

/-- `X / Z` and `Y / Z` are the coordinates of the point. -/
structure Represents (X Y Z : F) (P : E.Point) : Prop where
  denominator : Z ≠ 0
  abscissa : X = P.x * Z
  ordinate : Y = P.y * Z

namespace Represents

variable {P Q : E.Point} {X₁ Y₁ Z₁ X₂ Y₂ Z₂ : F}

theorem neutral : Represents 0 1 1 (0 : E.Point) := ⟨one_ne_zero, by simp, by simp⟩

theorem affine (P : E.Point) : Represents P.x P.y 1 P := ⟨one_ne_zero, by simp, by simp⟩

/-- The sum takes no inverse. -/
theorem add (hP : Represents X₁ Y₁ Z₁ P) (hQ : Represents X₂ Y₂ Z₂ Q) :
    Represents (Z₁ * Z₂ * ((Z₁ * Z₂) ^ 2 - E.d * (X₁ * X₂) * (Y₁ * Y₂)) * (X₁ * Y₂ + X₂ * Y₁))
      (Z₁ * Z₂ * ((Z₁ * Z₂) ^ 2 + E.d * (X₁ * X₂) * (Y₁ * Y₂)) * (Y₁ * Y₂ - E.a * (X₁ * X₂)))
      (((Z₁ * Z₂) ^ 2 - E.d * (X₁ * X₂) * (Y₁ * Y₂)) * ((Z₁ * Z₂) ^ 2 + E.d * (X₁ * X₂) * (Y₁ * Y₂))) (P + Q) := by
  have hplus := one_add_cross_ne_zero P Q
  have hminus := one_sub_cross_ne_zero P Q
  have hZ : (Z₁ * Z₂) ^ 2 ≠ 0 := pow_ne_zero 2 (mul_ne_zero hP.denominator hQ.denominator)
  have hF : (Z₁ * Z₂) ^ 2 - E.d * (X₁ * X₂) * (Y₁ * Y₂) = (Z₁ * Z₂) ^ 2 * (1 - cross P Q) := by
    rw [hP.abscissa, hP.ordinate, hQ.abscissa, hQ.ordinate, cross]
    ring
  have hG : (Z₁ * Z₂) ^ 2 + E.d * (X₁ * X₂) * (Y₁ * Y₂) = (Z₁ * Z₂) ^ 2 * (1 + cross P Q) := by
    rw [hP.abscissa, hP.ordinate, hQ.abscissa, hQ.ordinate, cross]
    ring
  rw [hF, hG]
  refine ⟨mul_ne_zero (mul_ne_zero hZ hminus) (mul_ne_zero hZ hplus), ?_, ?_⟩
  · rw [add_x, hP.abscissa, hP.ordinate, hQ.abscissa, hQ.ordinate]
    field_simp
  · rw [add_y, hP.abscissa, hP.ordinate, hQ.abscissa, hQ.ordinate]
    field_simp

/-- A point is the neutral one when its representatives are. -/
theorem eq_zero (h : Represents X₁ Y₁ Z₁ P) (hX : X₁ = 0) (hY : Y₁ = Z₁) : P = 0 := by
  have hx : P.x = 0 := (mul_eq_zero.mp (h.abscissa.symm.trans hX)).resolve_right h.denominator
  have hy : P.y = 1 := by
    refine mul_right_cancel₀ h.denominator ?_
    rw [← h.ordinate, hY, one_mul]
  exact Point.ext hx hy

end Represents

end Edwards

end HarnessConformance.Lib
