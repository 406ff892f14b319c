import HarnessConformance.Crypto.Decode
import HarnessConformance.Lib.Edwards
import Mathlib

/-! # The group of Ed25519

`_add` is the addition of a twisted Edwards curve over the field of `Q` elements, `_scalar_mult` takes
multiples in its group, and `BASE` has the order `L`. -/

namespace HarnessConformance.Crypto
open Lib Lib.Primality
set_option autoImplicit false

/-! ## The curve -/

theorem cast_I_ne_zero : (I : F) ≠ 0 := by
  intro hzero
  have hsq := cast_I_sq
  simp [hzero] at hsq

/-- `-x^2 + y^2 = 1 + D x^2 y^2` -/
noncomputable def curve : Edwards F where
  a := -1
  d := D
  root := I
  two_ne_zero := two_ne_zero
  root_sq := cast_I_sq
  root_ne_zero := cast_I_ne_zero
  not_isSquare := not_isSquare_D

theorem cast_val (z : F) : (((z.val : ℕ) : ℤ) : F) = z := by
  rw [Int.cast_natCast, ZMod.natCast_zmod_val]

theorem emod_eq_val {a : ℤ} {z : F} (h : (a : F) = z) : a % Q = z.val := by
  rw [← h, ZMod.val_intCast]

theorem val_range (z : F) : (0 : ℤ) ≤ z.val ∧ (z.val : ℤ) < Q := ⟨Int.natCast_nonneg _, by exact_mod_cast z.val_lt⟩

/-- A point of the curve as the source holds it. -/
def coordinates (P : curve.Point) : Point := (P.x.val, P.y.val)

theorem coordinates_injective : Function.Injective coordinates := by
  intro P R h
  have hx : (P.x.val : ℤ) = R.x.val := congrArg Prod.fst h
  have hy : (P.y.val : ℤ) = R.y.val := congrArg Prod.snd h
  exact Edwards.Point.ext (ZMod.val_injective Q (by exact_mod_cast hx)) (ZMod.val_injective Q (by exact_mod_cast hy))

theorem coordinates_zero : coordinates 0 = neutral := by
  have hone : (1 : F).val = 1 := ZMod.val_one Q
  rw [coordinates, Edwards.zero_x, Edwards.zero_y, ZMod.val_zero, hone]
  rfl

/-! ## Sums -/

/-- `pow(a, -1, Q) if a else 0`, of a number reduced modulo `Q`. -/
def reciprocal (a : ℤ) : ℤ := if a % Q ≠ 0 then inverse (a % Q) else 0

theorem cast_reciprocal (a : ℤ) : (reciprocal a : F) = (a : F)⁻¹ := by
  unfold reciprocal
  by_cases ha : a % Q = 0
  · rw [if_neg (not_not.mpr ha), cast_eq_zero_iff.mpr ha, Int.cast_zero, inv_zero]
  · have hreduced : a % Q % Q ≠ 0 := by rwa [Int.emod_emod_of_dvd a dvd_rfl]
    rw [if_pos ha, cast_inverse hreduced, cast_emod]

theorem add_eq (x1 y1 x2 y2 : ℤ) : add (x1, y1) (x2, y2) =
    ((x1 * y2 + x2 * y1) * reciprocal (1 + D * x1 * x2 * y1 * y2 % Q) % Q,
      (y1 * y2 + x1 * x2) * reciprocal (1 - D * x1 * x2 * y1 * y2 % Q) % Q) := rfl

/-- The number below which `_add` puts the abscissa, and that of the ordinate. -/
def denominators (left right : Point) : ℤ × ℤ :=
  let product := D * left.1 * right.1 * left.2 * right.2 % Q
  ((1 + product) % Q, (1 - product) % Q)

/-- The addition before its inverses were optimised: both are `pow(denominator, Q - 2, Q)`. -/
def plainAdd (left right : Point) : Point :=
  let (x1, y1) := left
  let (x2, y2) := right
  let product := D * x1 * x2 * y1 * y2 % Q
  ((x1 * y2 + x2 * y1) * power (1 + product) (Q - 2) Q % Q, (y1 * y2 + x1 * x2) * power (1 - product) (Q - 2) Q % Q)

theorem reciprocal_fermat (numerator a : ℤ) : numerator * reciprocal a % Q = numerator * power a (Q - 2) Q % Q := by
  have hcast : ((numerator * reciprocal a : ℤ) : F) = ((numerator * power a (Q - 2) Q : ℤ) : F) := by
    rw [Int.cast_mul, Int.cast_mul, cast_reciprocal, cast_fermat]
  exact cast_eq_iff.mp hcast

theorem reciprocal_of_zero {a : ℤ} (h : a % Q = 0) : reciprocal a = 0 := if_neg (not_not.mpr h)

theorem inverse?_isSome {a : ℤ} (h : a % Q ≠ 0) : (inverse? (a % Q)).isSome := by
  have hreduced : a % Q % Q ≠ 0 := by rwa [Int.emod_emod_of_dvd a dvd_rfl]
  obtain ⟨b, hb, -⟩ := inverse?_of_ne hreduced
  rw [hb]
  rfl

/-- On all integers `_add` is the plain addition; no inverse that it asks for is missing, and a denominator that
vanishes gives the coordinate 0. -/
theorem add_refines (left right : Point) : add left right = plainAdd left right ∧
    ((denominators left right).1 ≠ 0 → (inverse? (denominators left right).1).isSome) ∧
    ((denominators left right).2 ≠ 0 → (inverse? (denominators left right).2).isSome) ∧
    ((denominators left right).1 = 0 → (add left right).1 = 0) ∧ ((denominators left right).2 = 0 → (add left right).2 = 0) := by
  obtain ⟨x1, y1⟩ := left
  obtain ⟨x2, y2⟩ := right
  refine ⟨?_, inverse?_isSome, inverse?_isSome, ?_, ?_⟩
  · rw [add_eq, reciprocal_fermat, reciprocal_fermat]
    rfl
  · intro hzero
    rw [add_eq, reciprocal_of_zero hzero, mul_zero]
    rfl
  · intro hzero
    rw [add_eq, reciprocal_of_zero hzero, mul_zero]
    rfl

theorem cast_cross (P R : curve.Point) :
    ((D * P.x.val * R.x.val * P.y.val * R.y.val % Q : ℤ) : F) = Edwards.cross P R := by
  rw [cast_emod]
  push_cast
  simp only [ZMod.natCast_zmod_val]
  rfl

theorem add_coordinates (P R : curve.Point) : add (coordinates P) (coordinates R) = coordinates (P + R) := by
  rw [coordinates, coordinates, add_eq]
  refine Prod.ext (emod_eq_val ?_) (emod_eq_val ?_)
  · rw [Int.cast_mul, cast_reciprocal, Int.cast_add 1, cast_cross, Edwards.add_x, div_eq_mul_inv]
    push_cast
    simp only [ZMod.natCast_zmod_val]
  · have ha : curve.a = -1 := rfl
    rw [Int.cast_mul, cast_reciprocal, Int.cast_sub, cast_cross, Edwards.add_y, div_eq_mul_inv, ha]
    push_cast
    simp only [ZMod.natCast_zmod_val]
    ring

/-! ## Multiples -/

theorem halved (n : ℕ) (A : curve.Point) : n • A = (n % 2) • A + (n / 2) • (A + A) := by
  rw [← two_nsmul, smul_smul, ← add_nsmul]
  congr 1
  omega

theorem scalarLoop_coordinates (turns : ℕ) {n : ℕ} (h : n < 2 ^ turns) (R A : curve.Point) :
    scalarLoop turns n (coordinates R) (coordinates A) = coordinates (R + n • A) := by
  induction turns generalizing n R A with
  | zero =>
    have hn : n = 0 := by simpa using h
    rw [scalarLoop, hn, zero_nsmul, add_zero]
  | succ turns ih =>
    rw [scalarLoop]
    by_cases hn : n = 0
    · rw [if_pos hn, hn, zero_nsmul, add_zero]
    · have hhalf : n / 2 < 2 ^ turns := by
        rw [pow_succ] at h
        omega
      rw [if_neg hn, halved, ← add_assoc]
      by_cases hodd : n % 2 = 1
      · rw [if_pos hodd, add_coordinates, add_coordinates, ih hhalf, hodd, one_nsmul]
      · have heven : n % 2 = 0 := by omega
        rw [if_neg hodd, add_coordinates, ih hhalf, heven, zero_nsmul, add_zero]

/-- Double-and-add computes the multiple. -/
theorem scalarMult_coordinates (n : ℕ) (P : curve.Point) : scalarMult n (coordinates P) = coordinates (n • P) := by
  rw [scalarMult, ← coordinates_zero, scalarLoop_coordinates _ Nat.lt_log2_self, zero_add]

/-! ## The order of the base point -/

theorem onCurve_field {point : Point} (h : OnCurve point) :
    curve.a * (point.1 : F) ^ 2 + (point.2 : F) ^ 2 = 1 + curve.d * (point.1 : F) ^ 2 * (point.2 : F) ^ 2 := by
  have hfield : ((-point.1 ^ 2 + point.2 ^ 2 : ℤ) : F) = ((1 + D * point.1 ^ 2 * point.2 ^ 2 : ℤ) : F) := cast_eq_iff.mpr h
  have ha : curve.a = -1 := rfl
  have hd : curve.d = D := rfl
  push_cast at hfield
  rw [ha, hd]
  linear_combination hfield

/-- The point of the curve with these coordinates. -/
def pointOf (point : Point) (h : OnCurve point) : curve.Point := ⟨point.1, point.2, onCurve_field h⟩

theorem coordinates_pointOf {point : Point} (h : OnCurve point) (hx : point.1 % Q = point.1) (hy : point.2 % Q = point.2) :
    coordinates (pointOf point h) = point := by
  have h1 : ((point.1 : F).val : ℤ) = point.1 := by rw [← emod_eq_val rfl, hx]
  have h2 : ((point.2 : F).val : ℤ) = point.2 := by rw [← emod_eq_val rfl, hy]
  exact Prod.ext h1 h2

theorem base_computed : OnCurve base ∧ base.1 % Q = base.1 ∧ base.2 % Q = base.2 := by decide +kernel

theorem onCurve_base : OnCurve base := base_computed.1

theorem base_reduced : base.1 % Q = base.1 ∧ base.2 % Q = base.2 := base_computed.2

noncomputable def basePoint : curve.Point := pointOf base onCurve_base

theorem coordinates_base : coordinates basePoint = base :=
  coordinates_pointOf onCurve_base base_reduced.1 base_reduced.2

/-- A point over a common denominator. -/
structure Projective where
  x : ℤ
  y : ℤ
  z : ℤ

namespace Projective

/-- The sum of the curve without its two inverses. -/
def add (P R : Projective) : Projective :=
  let denominator := P.z * R.z % Q
  let abscissas := P.x * R.x % Q
  let ordinates := P.y * R.y % Q
  let product := D * abscissas % Q * ordinates % Q
  let minus := (denominator ^ 2 - product) % Q
  let plus := (denominator ^ 2 + product) % Q
  ⟨denominator * minus % Q * (P.x * R.y + R.x * P.y) % Q, denominator * plus % Q * (ordinates + abscissas) % Q, minus * plus % Q⟩

/-- The loop of `_scalar_mult` over such points. -/
def loop : ℕ → ℕ → Projective → Projective → Projective
  | 0, _, result, _ => result
  | turns + 1, n, result, addend => loop turns (n / 2) (if n % 2 = 1 then add result addend else result) (add addend addend)

def Represents (T : Projective) (P : curve.Point) : Prop := Edwards.Represents (T.x : F) T.y T.z P

theorem Represents.add {T U : Projective} {P R : curve.Point} (hT : T.Represents P) (hU : U.Represents R) :
    (T.add U).Represents (P + R) := by
  have ha : curve.a = -1 := rfl
  have hd : curve.d = D := rfl
  have hsum := Edwards.Represents.add hT hU
  rw [ha, hd] at hsum
  unfold Represents Projective.add
  convert hsum using 1
  · simp only [cast_emod, Int.cast_mul, Int.cast_add, Int.cast_sub, Int.cast_pow]
  · simp only [cast_emod, Int.cast_mul, Int.cast_add, Int.cast_pow]
    ring
  · simp only [cast_emod, Int.cast_mul, Int.cast_add, Int.cast_sub, Int.cast_pow]

theorem represents_loop (turns : ℕ) {n : ℕ} (h : n < 2 ^ turns) {T U : Projective} {R A : curve.Point}
    (hT : T.Represents R) (hU : U.Represents A) : (loop turns n T U).Represents (R + n • A) := by
  induction turns generalizing n T U R A with
  | zero =>
    have hn : n = 0 := by simpa using h
    rw [loop, hn, zero_nsmul, add_zero]
    exact hT
  | succ turns ih =>
    have hhalf : n / 2 < 2 ^ turns := by
      rw [pow_succ] at h
      omega
    rw [loop, halved, ← add_assoc]
    refine ih hhalf ?_ (hU.add hU)
    by_cases hodd : n % 2 = 1
    · rw [if_pos hodd, hodd, one_nsmul]
      exact hT.add hU
    · have heven : n % 2 = 0 := by omega
      rw [if_neg hodd, heven, zero_nsmul, add_zero]
      exact hT

end Projective

/-- `L` times the base point, without the last division. -/
def baseMultiple : Projective := Projective.loop 253 L ⟨0, 1, 1⟩ ⟨BX, BY, 1⟩

theorem baseMultiple_neutral : baseMultiple.x = 0 ∧ baseMultiple.y = baseMultiple.z := by decide +kernel

theorem order_basePoint : L • basePoint = 0 := by
  have hneutral : Projective.Represents ⟨0, 1, 1⟩ 0 := by
    simpa [Projective.Represents] using (Edwards.Represents.neutral (E := curve))
  have hbase : Projective.Represents ⟨BX, BY, 1⟩ basePoint := by
    have haffine := Edwards.Represents.affine basePoint
    unfold Projective.Represents
    rw [Int.cast_one]
    exact haffine
  have hrep : baseMultiple.Represents (0 + L • basePoint) := Projective.represents_loop 253 (by decide) hneutral hbase
  obtain ⟨hx, hy⟩ := baseMultiple_neutral
  rw [zero_add] at hrep
  exact hrep.eq_zero (by rw [hx, Int.cast_zero]) (by rw [hy])

end HarnessConformance.Crypto
