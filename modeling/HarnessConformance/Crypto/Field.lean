import HarnessConformance.Crypto.Ed25519
import Mathlib

/-! # The field of Ed25519

`Q` and `L` are prime, by certificates that the kernel checks. Over the field of `Q` elements `I` is
a root of -1 and `D` is no square, and the integer operations of `crypto.py` are those of the field. -/

namespace HarnessConformance.Crypto
open Lib Lib.Primality
set_option autoImplicit false

/-! ## The primes -/

def smallPrimes : List ℕ :=
  [2, 3, 5, 7, 11, 13, 19, 23, 31, 41, 43, 47, 73, 103, 107, 127, 223, 269, 307, 353, 991, 1361, 2437, 2551, 2851, 3727,
    4153, 5879, 30703, 57467, 65147, 75707, 82163, 132049, 132667, 137849, 409477, 430751, 531581, 569003]

theorem prime_of_mem_smallPrimes : ∀ p ∈ smallPrimes, p.Prime := by
  simp only [smallPrimes, List.forall_mem_cons]
  norm_num

/-- The certificates below `Q`. -/
def chainQ : List Certificate :=
  [⟨1923133, 2, [2, 2, 3, 43, 3727]⟩,
    ⟨31757755568855353, 10, [2, 2, 2, 3, 31, 107, 223, 4153, 430751]⟩,
    ⟨2773320623, 5, [2, 2437, 569003]⟩,
    ⟨72106336199, 7, [2, 13, 2773320623]⟩,
    ⟨8574133, 2, [2, 2, 3, 7, 103, 991]⟩,
    ⟨1919519569386763, 2, [2, 3, 7, 19, 47, 47, 127, 8574133]⟩,
    ⟨75445702479781427272750846543864801, 7, [2, 2, 2, 2, 2, 3, 3, 5, 5, 75707, 72106336199, 1919519569386763]⟩,
    ⟨74058212732561358302231226437062788676166966415465897661863160754340907, 2,
      [2, 3, 353, 57467, 132049, 1923133, 31757755568855353, 75445702479781427272750846543864801]⟩,
    ⟨Q, 2, [2, 2, 3, 65147, 74058212732561358302231226437062788676166966415465897661863160754340907]⟩]

/-- The certificates below `L`. -/
def chainL : List Certificate :=
  [⟨14741173, 2, [2, 2, 3, 3, 409477]⟩,
    ⟨58964693, 2, [2, 2, 14741173]⟩,
    ⟨3044861653679985063343, 5, [2, 3, 11, 30703, 82163, 132667, 137849]⟩,
    ⟨198211423230930754013084525763697, 5, [2, 2, 2, 2, 3, 23, 58964693, 3044861653679985063343]⟩,
    ⟨292386187, 2, [2, 3, 3, 3, 3, 307, 5879]⟩,
    ⟨213441916511, 13, [2, 5, 73, 292386187]⟩,
    ⟨1224481, 13, [2, 2, 2, 2, 2, 3, 5, 2551]⟩,
    ⟨1257559732178653, 2, [2, 2, 3, 7, 23, 531581, 1224481]⟩,
    ⟨4434155615661930479, 17, [2, 41, 43, 1257559732178653]⟩,
    ⟨172054593956031949258510691, 2, [2, 5, 1361, 2851, 4434155615661930479]⟩,
    ⟨19757330305831588566944191468367130476339, 2, [2, 269, 213441916511, 172054593956031949258510691]⟩,
    ⟨276602624281642239937218680557139826668747, 2, [2, 7, 19757330305831588566944191468367130476339]⟩,
    ⟨L, 2, [2, 2, 3, 11, 198211423230930754013084525763697, 276602624281642239937218680557139826668747]⟩]

theorem prime_Q : Q.Prime := by
  have hchain : Certificate.certified smallPrimes chainQ = true := by decide +kernel
  exact Certificate.prime_of_certified prime_of_mem_smallPrimes hchain _ (List.getLast_mem (by simp [chainQ]))

theorem prime_L : L.Prime := by
  have hchain : Certificate.certified smallPrimes chainL = true := by decide +kernel
  exact Certificate.prime_of_certified prime_of_mem_smallPrimes hchain _ (List.getLast_mem (by simp [chainL]))

instance : Fact Q.Prime := ⟨prime_Q⟩
instance : Fact L.Prime := ⟨prime_L⟩

/-- The field of coordinates. -/
abbrev F := ZMod Q

/-! ## Integers as field elements -/

theorem cast_eq_iff {a b : ℤ} : (a : F) = b ↔ a % Q = b % Q := ZMod.intCast_eq_intCast_iff' a b Q

theorem cast_eq_zero_iff {a : ℤ} : (a : F) = 0 ↔ a % Q = 0 := by
  rw [← Int.cast_zero, cast_eq_iff, Int.zero_emod]

theorem cast_emod (a : ℤ) : ((a % Q : ℤ) : F) = a := ZMod.intCast_mod a Q

theorem cast_Q : ((Q : ℤ) : F) = 0 := by
  rw [Int.cast_natCast, ZMod.natCast_self]

theorem Q_pos : (0 : ℤ) < Q := by decide

theorem emod_range (a : ℤ) : 0 ≤ a % Q ∧ a % Q < Q := ⟨Int.emod_nonneg a (ne_of_gt Q_pos), Int.emod_lt_of_pos a Q_pos⟩

theorem power_range (a : ℤ) (n : ℕ) : 0 ≤ power a n Q ∧ power a n Q < Q := by
  rw [power, powMod_eq]
  have hlt : (a % (Q : ℤ)).toNat ^ n % Q < Q := Nat.mod_lt _ (by decide)
  exact ⟨Int.natCast_nonneg _, by exact_mod_cast hlt⟩

theorem cast_power (a : ℤ) (n : ℕ) : ((power a n Q : ℤ) : F) = (a : F) ^ n := by
  have hbase : (((a % (Q : ℤ)).toNat : ℕ) : F) = a := by
    rw [← Int.cast_natCast, Int.toNat_of_nonneg (emod_range a).1, cast_emod]
  rw [power, powMod_eq, Int.cast_natCast, ZMod.natCast_mod, Nat.cast_pow, hbase]

/-- `pow(a, Q - 2, Q)` is the inverse of `a`, or 0 where there is none. -/
theorem cast_fermat (a : ℤ) : ((power a (Q - 2) Q : ℤ) : F) = (a : F)⁻¹ := by
  rw [cast_power]
  by_cases ha : (a : F) = 0
  · rw [ha, inv_zero, zero_pow (by decide)]
  · have hone : (a : F) ^ (Q - 2) * a = 1 := by
      rw [← pow_succ]
      exact ZMod.pow_card_sub_one_eq_one ha
    exact eq_inv_of_mul_eq_one_left hone

/-! ## Euclid's inverse -/

/-- The loop keeps two multiples of `u` modulo `m`, and ends at the greatest common divisor. -/
theorem euclidLoop_spec {m u : ℤ} (turns : ℕ) {a n b c : ℤ} (hn : 0 ≤ n) (hle : n ≤ a) (hsize : a * n < 2 ^ turns)
    (ha : a ≡ b * u [ZMOD m]) (hc : n ≡ c * u [ZMOD m]) :
    (euclidLoop turns a n b c).1 = Int.gcd a n ∧
      (euclidLoop turns a n b c).1 ≡ (euclidLoop turns a n b c).2 * u [ZMOD m] := by
  induction turns generalizing a n b c with
  | zero =>
    have hzero : n = 0 := by
      rw [pow_zero] at hsize
      nlinarith
    rw [hzero, Int.gcd_zero_right, Int.natAbs_of_nonneg (hn.trans hle)]
    exact ⟨rfl, ha⟩
  | succ turns ih =>
    rw [euclidLoop]
    by_cases hzero : n = 0
    · rw [if_pos hzero, hzero, Int.gcd_zero_right, Int.natAbs_of_nonneg (hn.trans hle)]
      exact ⟨rfl, ha⟩
    · rw [if_neg hzero]
      have hpos : 0 < n := lt_of_le_of_ne hn (Ne.symm hzero)
      have hrest : 0 ≤ a % n ∧ a % n < n := ⟨Int.emod_nonneg a hzero, Int.emod_lt_of_pos a hpos⟩
      have hdivision : n * (a / n) + a % n = a := Int.mul_ediv_add_emod a n
      -- A turn at least halves the product of the two numbers.
      have hhalf : n * (a % n) < 2 ^ turns := by
        have hquotient : 1 ≤ a / n := Int.le_ediv_of_mul_le hpos (by omega)
        have hmultiple : n * 1 ≤ n * (a / n) := mul_le_mul_of_nonneg_left hquotient hn
        have htwice : n * (2 * (a % n)) ≤ n * a := mul_le_mul_of_nonneg_left (by linarith) hn
        rw [pow_succ] at hsize
        linarith
      have hnext : a % n ≡ (b - a / n * c) * u [ZMOD m] := by
        have hdifference : a % n = a - a / n * n := by linarith [mul_comm n (a / n)]
        rw [hdifference, sub_mul, mul_assoc]
        exact ha.sub (hc.mul_left _)
      obtain ⟨hgcd, hmultiple⟩ := ih hrest.1 hrest.2.le hhalf hc hnext
      refine ⟨?_, hmultiple⟩
      rw [hgcd, Int.gcd_comm n, Int.gcd_emod]

/-- The inverse of a number that is not divisible by `Q` exists. -/
theorem inverse?_of_ne {a : ℤ} (ha : a % Q ≠ 0) : ∃ b, inverse? a = some b ∧ (b : F) = (a : F)⁻¹ := by
  have hrange := emod_range a
  have hturn : euclidLoop 512 a Q 1 0 = euclidLoop 511 Q (a % Q) 0 1 := by
    rw [euclidLoop, if_neg (ne_of_gt Q_pos), mul_zero, sub_zero]
  have hQ : (Q : ℤ) < 2 ^ 255 := by decide
  have hsize : (Q : ℤ) * (a % Q) < 2 ^ 511 :=
    calc (Q : ℤ) * (a % Q) ≤ 2 ^ 255 * 2 ^ 255 := mul_le_mul hQ.le (hrange.2.le.trans hQ.le) hrange.1 (by positivity)
      _ = 2 ^ 510 := by rw [← pow_add]
      _ < 2 ^ 511 := pow_lt_pow_right₀ (by norm_num) (by norm_num)
  have hfirst : (Q : ℤ) ≡ 0 * a [ZMOD Q] := by
    rw [zero_mul]
    exact (Int.modEq_zero_iff_dvd.mpr dvd_rfl)
  have hsecond : a % Q ≡ 1 * a [ZMOD Q] := by
    rw [one_mul]
    exact Int.mod_modEq a Q
  obtain ⟨hgcd, hmultiple⟩ := euclidLoop_spec 511 hrange.1 hrange.2.le hsize hfirst hsecond
  have hcoprime : Int.gcd Q (a % Q) = 1 := by
    have hnot : ¬ (Q : ℤ) ∣ a % Q := fun h => ha (by rw [← Int.emod_emod_of_dvd a dvd_rfl]; exact Int.emod_eq_zero_of_dvd h)
    exact Int.isCoprime_iff_gcd_eq_one.mp ((Nat.prime_iff_prime_int.mp prime_Q).coprime_iff_not_dvd.mpr hnot)
  rw [hcoprime, Nat.cast_one] at hgcd
  have hfound : inverse? a = some ((euclidLoop 511 Q (a % Q) 0 1).2 % Q) := by
    simp only [inverse?, hturn, hgcd, if_true]
  refine ⟨_, hfound, ?_⟩
  rw [hgcd] at hmultiple
  have hone := (ZMod.intCast_eq_intCast_iff _ _ Q).mpr hmultiple
  rw [Int.cast_one, Int.cast_mul] at hone
  rw [cast_emod]
  exact eq_inv_of_mul_eq_one_left hone.symm

theorem cast_inverse {a : ℤ} (ha : a % Q ≠ 0) : ((inverse a : ℤ) : F) = (a : F)⁻¹ := by
  obtain ⟨b, hb, hinverse⟩ := inverse?_of_ne ha
  rw [inverse, hb, Option.getD_some, hinverse]

/-! ## Squares -/

theorem two_ne_zero : (2 : F) ≠ 0 := by
  have h : ¬ ((2 : ℤ) : F) = 0 := fun h => absurd (cast_eq_zero_iff.mp h) (by decide)
  simpa using h

/-- `I` is a root of -1. -/
theorem cast_I_sq : (I : F) ^ 2 = -1 := by
  have h : ((I ^ 2 : ℤ) : F) = ((-1 : ℤ) : F) := cast_eq_iff.mpr (by decide +kernel)
  push_cast at h
  exact h

theorem pow_half (a : ℤ) : ((power a ((Q - 1) / 2) Q : ℤ) : F) = (a : F) ^ (Q / 2) := by
  rw [cast_power]
  congr 1

/-- Euler's criterion on the residues that the source computes with. -/
theorem isSquare_iff_power (a : ℤ) : IsSquare (a : F) ↔ power a ((Q - 1) / 2) Q ≠ Q - 1 := by
  have hminus : power a ((Q - 1) / 2) Q = Q - 1 ↔ (a : F) ^ (Q / 2) = -1 := by
    have hcast : (((-1 : ℤ)) : F) = -1 := by norm_num
    obtain ⟨hlow, hhigh⟩ := power_range a ((Q - 1) / 2)
    rw [← pow_half, ← hcast, cast_eq_iff, Int.emod_eq_of_lt hlow hhigh]
    rfl
  rw [ne_eq, hminus]
  by_cases ha : (a : F) = 0
  · rw [ha, zero_pow (by decide)]
    have hne : (0 : F) ≠ -1 := by simp
    exact ⟨fun _ => hne, fun _ => IsSquare.zero⟩
  · rw [ZMod.euler_criterion Q ha]
    have hsigns : (1 : F) ≠ -1 := fun h => two_ne_zero (by linear_combination h)
    rcases ZMod.pow_div_two_eq_neg_one_or_one Q ha with h | h
    · simp [h, hsigns]
    · simp [h, hsigns.symm]

theorem not_isSquare_D : ¬ IsSquare (D : F) := by
  rw [isSquare_iff_power, not_not]
  decide +kernel

theorem isSquare_neg_one : IsSquare (-1 : F) := ⟨I, by rw [← cast_I_sq, sq]⟩

/-- `D * y * y + 1` is never 0: `D` would be a square. -/
theorem denominator_ne_zero (y : F) : (D : F) * y * y + 1 ≠ 0 := by
  intro h
  have hy : y ≠ 0 := by
    rintro rfl
    simp at h
  refine not_isSquare_D ⟨(I : F) * y⁻¹, ?_⟩
  field_simp
  linear_combination h - cast_I_sq

end HarnessConformance.Crypto
