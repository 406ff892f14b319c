import HarnessConformance.Crypto.Group

/-! # Honest signatures

Compression is inverse to decompression on the points of no small order, the keys and nonces of `sign`
give such points, and `verify` accepts what `sign` returns. -/

namespace HarnessConformance.Crypto
open Lib Lib.Outcome Lib.Lines Lib.LittleEndian Lib.Primality
set_option autoImplicit false

/-! ## Multiples of the base point -/

theorem basePoint_ne_zero : basePoint ≠ 0 := by
  intro hzero
  have hbase : base = neutral := by rw [← coordinates_base, hzero, coordinates_zero]
  exact absurd hbase (by decide +kernel)

theorem addOrderOf_basePoint : addOrderOf basePoint = L := addOrderOf_eq_prime order_basePoint basePoint_ne_zero

theorem nsmul_mod_L (n : ℕ) : (n % L) • basePoint = n • basePoint := by
  rw [← addOrderOf_basePoint, mod_addOrderOf_nsmul]

theorem eight_nsmul_ne_zero {n : ℕ} (h : ¬ L ∣ n) : 8 • n • basePoint ≠ 0 := by
  intro hzero
  rw [smul_smul] at hzero
  have hdvd : L ∣ 8 * n := addOrderOf_basePoint ▸ addOrderOf_dvd_of_nsmul_eq_zero hzero
  rcases prime_L.dvd_mul.mp hdvd with height | hn
  · exact absurd height (by decide)
  · exact h hn

theorem scalarMult_base (n : ℕ) : scalarMult n base = coordinates (n • basePoint) := by
  rw [← scalarMult_coordinates, coordinates_base]

/-! ## Compression -/

/-- The ordinate and, above it, the parity of the abscissa. -/
def compressed (P : curve.Point) : ℕ := P.y.val + P.x.val % 2 * 2 ^ 255

theorem val_lt_two_pow (z : F) : z.val < 2 ^ 255 := z.val_lt.trans (by decide)

theorem compressed_lt (P : curve.Point) : compressed P < 256 ^ 32 := by
  have hy := val_lt_two_pow P.y
  have hparity : P.x.val % 2 < 2 := Nat.mod_lt _ (by decide)
  unfold compressed
  omega

theorem or_parity {y parity : ℕ} (hy : y < 2 ^ 255) : Int.lor y (parity * 2 ^ 255) = ((y + parity * 2 ^ 255 : ℕ) : ℤ) := by
  have hcast : (parity * 2 ^ 255 : ℤ) = ((parity * 2 ^ 255 : ℕ) : ℤ) := by push_cast; rfl
  have hor : y ||| parity * 2 ^ 255 = y + parity * 2 ^ 255 := by
    rw [Nat.or_comm, mul_comm, ← Nat.two_pow_add_eq_or_of_lt hy, add_comm]
  rw [hcast, ← hor]
  rfl

theorem encodePoint_coordinates (P : curve.Point) : encodePoint (coordinates P) = .ok (toLittle 32 (compressed P)) := by
  have hlor : Int.lor (coordinates P).2 ((coordinates P).1 % 2 * 2 ^ 255) = (compressed P : ℤ) := by
    have hparity : ((P.x.val : ℤ) % 2) = ((P.x.val % 2 : ℕ) : ℤ) := by push_cast; rfl
    rw [coordinates, hparity, or_parity (val_lt_two_pow P.y), compressed]
  have hrange : (0 : ℤ) ≤ compressed P ∧ (compressed P : ℤ) < 2 ^ 256 := by
    have h := compressed_lt P
    exact ⟨Int.natCast_nonneg _, by exact_mod_cast h⟩
  rw [encodePoint, hlor, toBytes, if_pos hrange, Int.toNat_natCast]

/-! ## Decompression -/

/-- The root that the sign bit asks for is the abscissa of the point. -/
theorem abscissa_of_root {x y : ℤ} {sign : ℕ} (hx : 0 ≤ x ∧ x < Q) (hroot : (x : F) ^ 2 = rootOf y) (hsign : x % 2 = sign) :
    abscissa y sign = x := by
  have hsquare : (xrecover y : F) ^ 2 = (x : F) ^ 2 := by
    rw [hroot, cast_xrecover_sq, hasRoot_iff, ← hroot]
    exact ⟨x, sq _⟩
  obtain ⟨⟨hlow, hhigh⟩, heven⟩ := xrecover_range y
  have hodd : (Q : ℤ) % 2 = 1 := by decide
  have hself : xrecover y % Q = xrecover y := Int.emod_eq_of_lt hlow hhigh
  rw [abscissa_eq]
  rcases sq_eq_sq_iff_eq_or_eq_neg.mp hsquare with hsame | hnegative
  · rw [cast_eq_iff, hself, Int.emod_eq_of_lt hx.1 hx.2] at hsame
    rw [hsame, hsign, if_neg (not_not.mpr rfl)]
  · have hzero : ((xrecover y + x : ℤ) : F) = 0 := by rw [Int.cast_add, hnegative, neg_add_cancel]
    have hsum : xrecover y + x = 0 ∨ xrecover y + x = Q := by
      have hdvd : (Q : ℤ) ∣ xrecover y + x := Int.dvd_of_emod_eq_zero (cast_eq_zero_iff.mp hzero)
      obtain ⟨k, hk⟩ := hdvd
      have hk0 : 0 ≤ k := by nlinarith [Q_pos]
      have hk2 : k < 2 := by nlinarith [Q_pos]
      interval_cases k
      · left; simpa using hk
      · right; simpa using hk
    split_ifs with hparity
    · omega
    · omega

theorem ordinate_toLittle (P : curve.Point) : ordinate (toLittle 32 (compressed P)) = P.y.val := by
  have hy := val_lt_two_pow P.y
  rw [ordinate, ofLittle_toLittle (compressed_lt P), Nat.and_two_pow_sub_one_eq_mod, compressed]
  omega

theorem signBit_toLittle (P : curve.Point) : signBit (toLittle 32 (compressed P)) = P.x.val % 2 := by
  have hy := val_lt_two_pow P.y
  rw [signBit, ofLittle_toLittle (compressed_lt P), Nat.shiftRight_eq_div_pow, compressed]
  omega

theorem root_abscissa (P : curve.Point) : ((P.x.val : ℤ) : F) ^ 2 = rootOf P.y.val := by
  have ha : curve.a = -1 := rfl
  have hd : curve.d = D := rfl
  have honCurve := P.onCurve
  rw [ha, hd] at honCurve
  rw [cast_rootOf, cast_val, cast_val, eq_div_iff (denominator_ne_zero _)]
  linear_combination -honCurve

/-- A point of no small order is decoded from its own bytes. -/
theorem decodePoint_toLittle {P : curve.Point} (h : 8 • P ≠ 0) : decodePoint (toLittle 32 (compressed P)) = .ok (coordinates P) := by
  have hx : abscissa (P.y.val : ℤ) (P.x.val % 2) = P.x.val :=
    abscissa_of_root (val_range P.x) (root_abscissa P) (by push_cast; rfl)
  have horder : scalarMult 8 (coordinates P) ≠ neutral := by
    rw [scalarMult_coordinates, ← coordinates_zero]
    exact fun heq => h (coordinates_injective heq)
  refine decodePoint_eq_ok.mpr ⟨length_toLittle _ _, ?_, ?_, encodePoint_coordinates P, horder⟩
  · rw [ordinate_toLittle]
    exact P.y.val_lt
  · rw [ordinate_toLittle, signBit_toLittle, hx]
    rfl

/-! ## Keys -/

theorem ofLittle_append (x y : Bytes) : ofLittle (x ++ y) = ofLittle x + 256 ^ x.length * ofLittle y := by
  induction x with
  | nil => simp [ofLittle]
  | cons b x ih =>
    rw [List.cons_append, ofLittle, ih, ofLittle, List.length_cons, pow_succ]
    ring

theorem modify_last (bytes : Bytes) (last : UInt8) (f : UInt8 → UInt8) :
    (bytes ++ [last]).modify bytes.length f = bytes ++ [f last] := by
  induction bytes with
  | nil => rfl
  | cons b bytes ih => rw [List.cons_append, List.length_cons, List.modify_succ_cons, ih, List.cons_append]

theorem low_bits (b : UInt8) : 8 ∣ (b &&& 248).toNat := by
  have hall : ∀ n < 256, 8 ∣ n &&& 248 := by decide +kernel
  rw [UInt8.toNat_and]
  exact hall _ b.toNat_lt

theorem high_bits (b : UInt8) : 64 ≤ (b &&& 63 ||| 64).toNat ∧ (b &&& 63 ||| 64).toNat < 128 := by
  have hall : ∀ n < 256, 64 ≤ n &&& 63 ||| 64 ∧ n &&& 63 ||| 64 < 128 := by decide +kernel
  rw [UInt8.toNat_or, UInt8.toNat_and]
  exact hall _ b.toNat_lt

/-- A clamped scalar is a multiple of 8 with the bit 254 as its highest. -/
theorem clamp_range {bytes : Bytes} (h : bytes.length = 32) :
    8 ∣ ofLittle (clamp bytes) ∧ 2 ^ 254 ≤ ofLittle (clamp bytes) ∧ ofLittle (clamp bytes) < 2 ^ 255 := by
  obtain ⟨first, rest, rfl⟩ := List.exists_cons_of_length_eq_add_one h
  have hrest : rest ≠ [] := by
    rintro rfl
    simp at h
  obtain ⟨middle, last, rfl⟩ : ∃ middle last, rest = middle ++ [last] :=
    ⟨rest.dropLast, rest.getLast hrest, (List.dropLast_append_getLast hrest).symm⟩
  have hmiddle : middle.length = 30 := by
    simp only [List.length_cons, List.length_append, List.length_nil] at h
    omega
  have hclamp : clamp (first :: (middle ++ [last])) = (first &&& 248) :: (middle ++ [last &&& 63 ||| 64]) := by
    have hlast := modify_last middle last fun b => b &&& 63 ||| 64
    rw [hmiddle] at hlast
    rw [clamp, List.modify_zero_cons, List.modify_succ_cons, hlast]
  have hlow := low_bits first
  obtain ⟨hhigh, hhigh'⟩ := high_bits last
  have hbyte := (first &&& 248).toNat_lt
  have hnumber := ofLittle_lt middle
  rw [hmiddle] at hnumber
  rw [hclamp, ofLittle, ofLittle_append, hmiddle, ofLittle, ofLittle]
  omega

example : ofLittle (clamp (List.replicate 32 0)) = 2 ^ 254 := by decide +kernel

section
variable [Sha512]

theorem not_dvd_clampedScalar (seed : Bytes) : ¬ L ∣ (clampedScalar seed).1 := by
  have hlength : ((Sha512.digest seed).take 32).length = 32 := by rw [List.length_take, Sha512.length_digest]; rfl
  obtain ⟨⟨m, hm⟩, hlow, hhigh⟩ := clamp_range hlength
  have hL : 2 ^ 252 < L := by decide
  intro hdvd
  rw [clampedScalar, hm] at hdvd
  rcases prime_L.dvd_mul.mp hdvd with height | hdvd
  · exact absurd height (by decide)
  · have hle := Nat.le_of_dvd (by omega) hdvd
    omega

theorem publicKey_eq {seed : Bytes} (h : seed.length = 32) :
    publicKey seed = .ok (toLittle 32 (compressed ((clampedScalar seed).1 • basePoint))) := by
  rw [publicKey, h, scalarMult_base, encodePoint_coordinates]
  rfl

end

/-- Both points of an honest signature are read back. -/
theorem decodePoint_base {n : ℕ} (h : ¬ L ∣ n) :
    decodePoint (toLittle 32 (compressed (n • basePoint))) = .ok (coordinates (n • basePoint)) :=
  decodePoint_toLittle (eight_nsmul_ne_zero h)

/-! ## Signatures -/

/-- The scalar of a signature. -/
def answer (nonce challenge scalar : ℕ) : ℕ := (nonce + challenge * scalar) % L

theorem answer_lt (nonce challenge scalar : ℕ) : answer nonce challenge scalar < L := Nat.mod_lt _ (by decide)

/-- The equation that `verify` checks. -/
theorem answer_equation (nonce challenge scalar : ℕ) : scalarMult (answer nonce challenge scalar) base =
    add (coordinates (nonce • basePoint)) (scalarMult challenge (coordinates (scalar • basePoint))) := by
  have hproduct : (challenge * scalar) • basePoint = challenge • scalar • basePoint := by rw [smul_smul]
  rw [scalarMult_base, answer, nsmul_mod_L, add_nsmul, hproduct, scalarMult_coordinates, add_coordinates]

theorem toBytes_answer (nonce challenge scalar : ℕ) :
    toBytes (answer nonce challenge scalar) = .ok (toLittle 32 (answer nonce challenge scalar)) := by
  have hlt := answer_lt nonce challenge scalar
  have hL : L < 2 ^ 256 := by decide
  have hrange : (0 : ℤ) ≤ answer nonce challenge scalar ∧ (answer nonce challenge scalar : ℤ) < 2 ^ 256 :=
    ⟨Int.natCast_nonneg _, by exact_mod_cast hlt.trans hL⟩
  rw [toBytes, if_pos hrange, Int.toNat_natCast]

section
variable [Sha512]

/-- The bytes of the public key that belongs to a seed. -/
noncomputable def publicBytes (seed : Bytes) : Bytes := toLittle 32 (compressed ((clampedScalar seed).1 • basePoint))

/-- The bytes of the point of a message's nonce. -/
noncomputable def nonceBytes (seed message : Bytes) : Bytes := toLittle 32 (compressed (nonceOf seed message • basePoint))

/-- The scalar that `sign` puts behind the nonce point. -/
noncomputable def signatureScalar (seed message : Bytes) : ℕ :=
  answer (nonceOf seed message) (digestScalar (nonceBytes seed message ++ publicBytes seed ++ message)) (clampedScalar seed).1

theorem sign_of_steps {seed message key encodedR encodedS : Bytes} (hkey : publicKey seed = .ok key)
    (hR : encodePoint (scalarMult (nonceOf seed message) base) = .ok encodedR)
    (hS : toBytes (answer (nonceOf seed message) (digestScalar (encodedR ++ key ++ message)) (clampedScalar seed).1) = .ok encodedS) :
    sign seed message = .ok (encodedR ++ encodedS) := by
  rw [sign, hkey, ok_bind]
  refine bind_eq_ok.mpr ⟨encodedR, hR, ?_⟩
  exact bind_eq_ok.mpr ⟨encodedS, hS, rfl⟩

theorem sign_eq {seed : Bytes} (message : Bytes) (h : seed.length = 32) :
    sign seed message = .ok (nonceBytes seed message ++ toLittle 32 (signatureScalar seed message)) := by
  have hnonce : encodePoint (scalarMult (nonceOf seed message) base) = .ok (nonceBytes seed message) := by
    rw [scalarMult_base, encodePoint_coordinates, nonceBytes]
  exact sign_of_steps (publicKey_eq h) hnonce (toBytes_answer _ _ _)

theorem nonceOf_lt (seed message : Bytes) : nonceOf seed message < L := Nat.mod_lt _ (by decide)

theorem not_dvd_nonceOf {seed message : Bytes} (h : nonceOf seed message ≠ 0) : ¬ L ∣ nonceOf seed message := by
  intro hdvd
  have hle := Nat.le_of_dvd (Nat.pos_of_ne_zero h) hdvd
  have hlt := nonceOf_lt seed message
  omega

/-- `verify` accepts the signature of an honest nonce. -/
theorem verify_signature {seed message : Bytes} (h : nonceOf seed message ≠ 0) :
    verify (publicBytes seed) message (nonceBytes seed message ++ toLittle 32 (signatureScalar seed message)) = .ok true := by
  have hlengthA : (publicBytes seed).length = 32 := length_toLittle _ _
  have hlengthR : (nonceBytes seed message).length = 32 := length_toLittle _ _
  have hscalar : ofLittle (toLittle 32 (signatureScalar seed message)) = signatureScalar seed message := by
    have hlt := answer_lt (nonceOf seed message) (digestScalar (nonceBytes seed message ++ publicBytes seed ++ message))
      (clampedScalar seed).1
    have hL : L < 256 ^ 32 := by decide
    exact ofLittle_toLittle (hlt.trans hL)
  have hlt : ¬ signatureScalar seed message ≥ L := not_le.mpr (answer_lt _ _ _)
  have hA : decodePoint (publicBytes seed) = .ok (coordinates ((clampedScalar seed).1 • basePoint)) :=
    decodePoint_base (not_dvd_clampedScalar seed)
  have hR : decodePoint (nonceBytes seed message) = .ok (coordinates (nonceOf seed message • basePoint)) :=
    decodePoint_base (not_dvd_nonceOf h)
  have hequation : scalarMult (signatureScalar seed message) base = _ := answer_equation _ _ _
  rw [verify, if_neg (by simp [hlengthA, hlengthR]), List.take_left' hlengthR, List.drop_left' hlengthR, hA, ok_bind, hR, ok_bind,
    hscalar, if_neg hlt, hequation]
  simp only [decide_true]
  rfl

/-- For every seed and every message whose nonce is not 0, `verify` accepts what `sign` returns. -/
theorem completeness (seed message : Bytes) (hseed : seed.length = 32) (hnonce : nonceOf seed message ≠ 0) :
    ∃ key signature, publicKey seed = .ok key ∧ sign seed message = .ok signature ∧ verify key message signature = .ok true :=
  ⟨_, _, publicKey_eq hseed, sign_eq message hseed, verify_signature hnonce⟩

end

/-! ## Uniqueness -/

/-- Below the order of the base point no two scalars have the same multiple. -/
theorem scalarMult_base_injective {n n' : ℕ} (hn : n < L) (hn' : n' < L) (h : scalarMult n base = scalarMult n' base) : n = n' := by
  rw [scalarMult_base, scalarMult_base] at h
  have hmod : n % addOrderOf basePoint = n' % addOrderOf basePoint := nsmul_inj_mod.mp (coordinates_injective h)
  rwa [addOrderOf_basePoint, Nat.mod_eq_of_lt hn, Nat.mod_eq_of_lt hn'] at hmod

section
variable [Sha512]

/-- What `verify` asks of the second half of a signature: its multiple of `BASE` is a point that the half does not
have a part in. -/
theorem equation_of_verify {key message R s : Bytes} (hR : R.length = 32) (h : verify key message (R ++ s) = .ok true) :
    ∃ pointA pointR, decodePoint key = .ok pointA ∧ decodePoint R = .ok pointR ∧ ofLittle s < L ∧
      scalarMult (ofLittle s) base = add pointR (scalarMult (digestScalar (R ++ key ++ message)) pointA) := by
  rw [verify, List.take_left' hR, List.drop_left' hR] at h
  by_cases hlength : key.length ≠ 32 ∨ (R ++ s).length ≠ 64
  · rw [if_pos hlength] at h
    cases h
  · rw [if_neg hlength] at h
    split at h
    · cases h
    · obtain ⟨pointA, hA, h⟩ := bind_eq_ok.mp h
      obtain ⟨pointR, hpoint, h⟩ := bind_eq_ok.mp h
      by_cases hrange : ofLittle s ≥ L
      · rw [if_pos hrange] at h
        cases h
      · rw [if_neg hrange] at h
        exact ⟨pointA, pointR, hA, hpoint, not_le.mp hrange, of_decide_eq_true (Except.ok.inj h)⟩

/-- For every key, message and point bytes, one string at most completes a signature that `verify` accepts. -/
theorem verify_unique (key message R s s' : Bytes) (hR : R.length = 32) (hs : s.length = 32) (hs' : s'.length = 32)
    (h : verify key message (R ++ s) = .ok true) (h' : verify key message (R ++ s') = .ok true) : s = s' := by
  obtain ⟨pointA, pointR, hA, hpoint, hlt, heq⟩ := equation_of_verify hR h
  obtain ⟨pointA', pointR', hA', hpoint', hlt', heq'⟩ := equation_of_verify hR h'
  obtain rfl : pointA = pointA' := Except.ok.inj (hA.symm.trans hA')
  obtain rfl : pointR = pointR' := Except.ok.inj (hpoint.symm.trans hpoint')
  have hscalar : ofLittle s = ofLittle s' := scalarMult_base_injective hlt hlt' (heq.trans heq'.symm)
  exact ofLittle_inj (hs.trans hs'.symm) hscalar

end

/-- The digests of 32 zero bytes, of the prefix that they give and of the empty message under it. -/
def tabulated : Bytes × Bytes × Bytes :=
  ([80, 70, 173, 193, 219, 168, 56, 134, 123, 43, 187, 253, 208, 195, 66, 62, 88, 181, 121, 112, 181, 38, 122, 144, 245, 121,
     96, 146, 74, 135, 241, 150, 10, 106, 133, 234, 166, 66, 218, 200, 53, 66, 75, 93, 124, 141, 99, 124, 0, 64, 140, 122, 115,
     218, 103, 43, 127, 73, 133, 33, 66, 11, 109, 211],
    [40, 104, 233, 224, 21, 112, 85, 27, 231, 181, 198, 33, 162, 68, 157, 138, 146, 85, 233, 48, 124, 200, 129, 229, 124, 4,
     101, 129, 29, 149, 86, 50, 12, 9, 29, 4, 215, 14, 158, 251, 177, 165, 75, 187, 154, 235, 115, 198, 254, 162, 243, 48, 198,
     59, 198, 112, 53, 203, 54, 37, 134, 240, 65, 148],
    [248, 37, 172, 196, 59, 16, 198, 163, 197, 24, 250, 247, 66, 157, 66, 234, 103, 29, 80, 188, 11, 19, 13, 85, 5, 255, 155,
     25, 253, 167, 16, 206, 40, 121, 78, 224, 60, 39, 219, 70, 1, 225, 205, 104, 215, 254, 156, 128, 118, 153, 248, 35, 20, 41,
     67, 235, 173, 130, 147, 36, 12, 53, 155, 26])

def zeroSeed : Bytes := List.replicate 32 0

/-- SHA-512 on the three byte strings that signing the empty message reads. -/
@[reducible] def tabulatedSha512 : Sha512 where
  digest data :=
    if data = zeroSeed then tabulated.1 else if data = tabulated.1.drop 32 then tabulated.2.1
    else if data.length = 64 then tabulated.2.2 else List.replicate 64 0
  length_digest data := by
    split_ifs
    · rfl
    · rfl
    · rfl
    · exact List.length_replicate

theorem completeness_sample : ∃ key signature, @publicKey tabulatedSha512 zeroSeed = .ok key ∧
    @sign tabulatedSha512 zeroSeed [] = .ok signature ∧ @verify tabulatedSha512 key [] signature = .ok true := by
  have hnonce : @nonceOf tabulatedSha512 zeroSeed [] ≠ 0 := by decide +kernel
  exact @completeness tabulatedSha512 zeroSeed [] rfl hnonce

theorem verify_unique_sample : ∃ key R, R.length = 32 ∧
    ∃! s, s.length = 32 ∧ @verify tabulatedSha512 key [] (R ++ s) = .ok true := by
  have hnonce : @nonceOf tabulatedSha512 zeroSeed [] ≠ 0 := by decide +kernel
  have hverify := @verify_signature tabulatedSha512 zeroSeed [] hnonce
  have hR := length_toLittle 32 (compressed (@nonceOf tabulatedSha512 zeroSeed [] • basePoint))
  have hs := length_toLittle 32 (@signatureScalar tabulatedSha512 zeroSeed [])
  refine ⟨_, _, hR, _, ⟨hs, hverify⟩, ?_⟩
  rintro s' ⟨hs', h'⟩
  exact @verify_unique tabulatedSha512 _ _ _ s' _ hR hs' hs h' hverify

end HarnessConformance.Crypto
