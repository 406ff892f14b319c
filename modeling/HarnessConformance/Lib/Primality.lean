import Mathlib

/-! # Modular powers and certified primes

`powMod m a n` is `a ^ n % m` by repeated squaring (`powMod_eq`). A chain of certificates, each a
witness with the prime factors of `p - 1`, proves its numbers prime by Lucas's test
(`prime_of_certified`). -/

namespace HarnessConformance.Lib.Primality
set_option autoImplicit false

/-! ## Powers -/

/-- `a ^ n % m` from the lowest `bits` bits of `n`. -/
def powBits (m : ℕ) : ℕ → ℕ → ℕ → ℕ
  | 0, _, _ => 1 % m
  | bits + 1, a, n => a ^ (n % 2) * powBits m bits (a * a % m) (n / 2) % m

def powMod (m a n : ℕ) : ℕ := powBits m (n.log2 + 1) a n

theorem powBits_eq {m bits a n : ℕ} (h : n < 2 ^ bits) : powBits m bits a n = a ^ n % m := by
  induction bits generalizing a n with
  | zero =>
    obtain rfl : n = 0 := by simpa using h
    rw [powBits, pow_zero]
  | succ bits ih =>
    have hhalf : n / 2 < 2 ^ bits := by
      rw [pow_succ] at h
      omega
    have hsquares : (a * a % m) ^ (n / 2) % m = a ^ (2 * (n / 2)) % m := by rw [← Nat.pow_mod, pow_mul, sq]
    have hexponent : n % 2 + 2 * (n / 2) = n := Nat.mod_add_div n 2
    rw [powBits, ih hhalf, hsquares, ← Nat.mul_mod_mod, Nat.mod_mod, Nat.mul_mod_mod, ← pow_add, hexponent]

theorem powMod_eq (m a n : ℕ) : powMod m a n = a ^ n % m := powBits_eq Nat.lt_log2_self

/-! ## Lucas's test -/

theorem pow_eq_one_iff {p : ℕ} (hp : 1 < p) (a n : ℕ) : (a : ZMod p) ^ n = 1 ↔ powMod p a n = 1 := by
  rw [powMod_eq, ← Nat.cast_pow, ← Nat.cast_one, ZMod.natCast_eq_natCast_iff', Nat.mod_eq_of_lt hp]

/-- A number with a witness of order `p - 1` and the prime factors of `p - 1`, with repetitions. -/
structure Certificate where
  p : ℕ
  witness : ℕ
  factors : List ℕ

namespace Certificate

/-- The test, its factors taken from the numbers already known to be prime. -/
def check (known : List ℕ) (c : Certificate) : Bool :=
  decide (1 < c.p) && decide (c.factors ⊆ known) && decide (c.factors.prod + 1 = c.p) &&
    powMod c.p c.witness (c.p - 1) == 1 && c.factors.all fun q => powMod c.p c.witness ((c.p - 1) / q) != 1

theorem prime_of_check {known : List ℕ} (hknown : ∀ q ∈ known, q.Prime) {c : Certificate} (h : c.check known = true) :
    c.p.Prime := by
  simp only [check, Bool.and_eq_true, decide_eq_true_eq, beq_iff_eq, List.all_eq_true, bne_iff_ne] at h
  obtain ⟨⟨⟨⟨hp, hsub⟩, hprod⟩, hone⟩, hne⟩ := h
  refine lucas_primality c.p (c.witness : ZMod c.p) ((pow_eq_one_iff hp _ _).mpr hone) fun q hq hdvd => ?_
  have hprime (r : ℕ) (hr : r ∈ c.factors) : r.Prime := hknown r (hsub hr)
  rw [show c.p - 1 = c.factors.prod by omega, Prime.dvd_prod_iff hq.prime] at hdvd
  obtain ⟨r, hr, hqr⟩ := hdvd
  obtain rfl := (Nat.prime_dvd_prime_iff_eq hq (hprime r hr)).mp hqr
  rw [ne_eq, pow_eq_one_iff hp]
  exact hne q hr

/-- A chain of certificates, each of which may use the numbers before it. -/
def certified (known : List ℕ) : List Certificate → Bool
  | [] => true
  | c :: chain => c.check known && certified (c.p :: known) chain

theorem prime_of_certified {known : List ℕ} (hknown : ∀ q ∈ known, q.Prime) {chain : List Certificate}
    (h : certified known chain = true) : ∀ c ∈ chain, c.p.Prime := by
  induction chain generalizing known with
  | nil => simp
  | cons c chain ih =>
    rw [certified, Bool.and_eq_true] at h
    have hc := prime_of_check hknown h.1
    exact List.forall_mem_cons.mpr ⟨hc, ih (List.forall_mem_cons.mpr ⟨hc, hknown⟩) h.2⟩

end Certificate

end HarnessConformance.Lib.Primality
