import HarnessConformance.Lib.LittleEndian
import HarnessConformance.Lib.Primality
import HarnessConformance.Python
import Mathlib

/-! # Ed25519

The curve arithmetic, the point encoding and the signatures of `crypto.py`, on the integers as the
source computes them. SHA-512 is a parameter. -/

namespace HarnessConformance.Crypto
open Lib Lib.Outcome Lib.Lines Lib.LittleEndian Lib.Primality
set_option autoImplicit false

/-! ## Constants -/

def Q : ℕ := 2 ^ 255 - 19
def L : ℕ := 2 ^ 252 + 27742317777372353535851937790883648493

/-- `pow(base, exponent, modulus)`, for an exponent that is not negative. -/
def power (base : ℤ) (exponent modulus : ℕ) : ℤ := powMod modulus (base % modulus).toNat exponent

/-- The loop of `pow(a, -1, n)`, with a bound on its turns: the last divisor, and its multiple of `a`. -/
def euclidLoop : ℕ → ℤ → ℤ → ℤ → ℤ → ℤ × ℤ
  | 0, a, _, b, _ => (a, b)
  | turns + 1, a, n, b, c => if n = 0 then (a, b) else euclidLoop turns n (a % n) c (b - a / n * c)

/-- `pow(a, -1, Q)`, with `none` for its `ValueError`. -/
def inverse? (a : ℤ) : Option ℤ :=
  let result := euclidLoop 512 a Q 1 0
  if result.1 = 1 then some (result.2 % Q) else none

/-- `pow(a, -1, Q)` where it does not raise; `_add` asks for no other inverse. -/
def inverse (a : ℤ) : ℤ := (inverse? a).getD 0

def D : ℤ := (-121665 * power 121666 (Q - 2) Q) % Q
def I : ℤ := power 2 ((Q - 1) / 4) Q

abbrev Point := ℤ × ℤ

/-- `IDENTITY` -/
def neutral : Point := (0, 1)

/-! ## Arithmetic -/

/-- The square that `_xrecover` takes the root of; it is not reduced. -/
def rootOf (y : ℤ) : ℤ := (y * y - 1) * power (D * y * y + 1) (Q - 2) Q

/-- `_xrecover(y)` -/
def xrecover (y : ℤ) : ℤ :=
  let xx := rootOf y
  let x := power xx ((Q + 3) / 8) Q
  let x := if (x * x - xx) % Q ≠ 0 then x * I % Q else x
  if x % 2 = 1 then Q - x else x

def BY : ℤ := 4 * power 5 (Q - 2) Q % Q
def BX : ℤ := xrecover BY
/-- `BASE` -/
def base : Point := (BX, BY)

/-- `_add(left, right)` -/
def add (left right : Point) : Point :=
  let (x1, y1) := left
  let (x2, y2) := right
  let product := D * x1 * x2 * y1 * y2 % Q
  let denominatorX := (1 + product) % Q
  let denominatorY := (1 - product) % Q
  let inverseX := if denominatorX ≠ 0 then inverse denominatorX else 0
  let inverseY := if denominatorY ≠ 0 then inverse denominatorY else 0
  ((x1 * y2 + x2 * y1) * inverseX % Q, (y1 * y2 + x1 * x2) * inverseY % Q)

/-- The loop of `_scalar_mult`, with a bound on its turns. -/
def scalarLoop : ℕ → ℕ → Point → Point → Point
  | 0, _, result, _ => result
  | turns + 1, scalar, result, addend =>
    if scalar = 0 then result
    else scalarLoop turns (scalar / 2) (if scalar % 2 = 1 then add result addend else result) (add addend addend)

/-- `_scalar_mult(scalar, point)`: the loop has one turn for every bit. -/
def scalarMult (scalar : ℕ) (point : Point) : Point := scalarLoop (scalar.log2 + 1) scalar neutral point

/-! ## Points as byte strings -/

/-- `int.to_bytes(n, 32, "little")` -/
def toBytes (n : ℤ) : Py Bytes :=
  if 0 ≤ n ∧ n < 2 ^ 256 then .ok (toLittle 32 n.toNat) else .error .overflowError

/-- `_encode_point(point)` -/
def encodePoint (point : Point) : Py Bytes := toBytes (Int.lor point.2 (point.1 % 2 * 2 ^ 255))

/-- `encoded & ((1 << 255) - 1)`, of the number a byte string spells. -/
def ordinate (data : Bytes) : ℕ := ofLittle data &&& (2 ^ 255 - 1)

/-- `encoded >> 255` -/
def signBit (data : Bytes) : ℕ := ofLittle data >>> 255

/-- The root with the parity the sign bit asks for. -/
def abscissa (y : ℤ) (sign : ℕ) : ℤ :=
  let x := xrecover y
  if x % 2 ≠ sign then Q - x else x

/-- `_decode_point(data)` -/
def decodePoint (data : Bytes) : Py Point := do
  conform "INVALID_ED25519_POINT" "Ed25519 point must be 32 bytes" (data.length = 32)
  conform "NON_CANONICAL_ED25519_POINT" "Ed25519 y coordinate is non-canonical" (ordinate data < Q)
  let point : Point := (abscissa (ordinate data) (signBit data), ordinate data)
  let encoded ← encodePoint point
  conform "NON_CANONICAL_ED25519_POINT" "Ed25519 point encoding is non-canonical" (encoded = data)
  conform "SMALL_ORDER_ED25519_POINT" "small-order Ed25519 points are forbidden" (scalarMult 8 point ≠ neutral)
  pure point

/-! ## Signatures -/

/-- `hashlib.sha512(data).digest()` -/
class Sha512 where
  digest : Bytes → Bytes
  length_digest : ∀ data, (digest data).length = 64

variable [Sha512]

/-- `scalar_bytes[0] &= 248`, `scalar_bytes[31] &= 63`, `scalar_bytes[31] |= 64` -/
def clamp (bytes : Bytes) : Bytes := (bytes.modify 0 (· &&& 248)).modify 31 fun b => b &&& 63 ||| 64

/-- `_clamped_scalar(seed)` -/
def clampedScalar (seed : Bytes) : ℕ × Bytes :=
  let digest := Sha512.digest seed
  (ofLittle (clamp (digest.take 32)), digest.drop 32)

/-- `public_key(seed)` -/
def publicKey (seed : Bytes) : Py Bytes := do
  conform "INVALID_PRIVATE_KEY" "Ed25519 seed must be 32 bytes" (seed.length = 32)
  encodePoint (scalarMult (clampedScalar seed).1 base)

/-- A digest as a number modulo `L`. -/
def digestScalar (data : Bytes) : ℕ := ofLittle (Sha512.digest data) % L

/-- The nonce that `sign` derives for a message. -/
def nonceOf (seed message : Bytes) : ℕ := digestScalar ((clampedScalar seed).2 ++ message)

/-- `sign(seed, message)` -/
def sign (seed message : Bytes) : Py Bytes := do
  let scalar := (clampedScalar seed).1
  let encodedPublic ← publicKey seed
  let nonce := nonceOf seed message
  let encodedR ← encodePoint (scalarMult nonce base)
  let challenge := digestScalar (encodedR ++ encodedPublic ++ message)
  let s := (nonce + challenge * scalar) % L
  pure (encodedR ++ (← toBytes s))

/-- `verify(public, message, signature)`; the points are read before the equation is looked at. -/
def verify (publicBytes message signature : Bytes) : Py Bool :=
  if publicBytes.length ≠ 32 ∨ signature.length ≠ 64 then .ok false
  else
    match (do
      let pointA ← decodePoint publicBytes
      let pointR ← decodePoint (signature.take 32)
      let scalar := ofLittle (signature.drop 32)
      if scalar ≥ L then pure false
      else
        let challenge := digestScalar (signature.take 32 ++ publicBytes ++ message)
        pure (decide (scalarMult scalar base = add pointR (scalarMult challenge pointA))) : Py Bool) with
    | .error (.conformance _ _) => .ok false
    | result => result

end HarnessConformance.Crypto
