import HarnessConformance.Lib.Lines
import HarnessConformance.Lib.Regex

/-! # SHA-256

The hash function over byte lists, and the form of its hexadecimal digest. -/

namespace HarnessConformance.Lib.Sha256
open Lines
set_option autoImplicit false

def rotateRight (x : UInt32) (n : UInt32) : UInt32 := (x >>> n) ||| (x <<< (32 - n))

def choose (x y z : UInt32) : UInt32 := (x &&& y) ^^^ (~~~x &&& z)

def majority (x y z : UInt32) : UInt32 := (x &&& y) ^^^ (x &&& z) ^^^ (y &&& z)

def bigSigma0 (x : UInt32) : UInt32 := rotateRight x 2 ^^^ rotateRight x 13 ^^^ rotateRight x 22
def bigSigma1 (x : UInt32) : UInt32 := rotateRight x 6 ^^^ rotateRight x 11 ^^^ rotateRight x 25
def smallSigma0 (x : UInt32) : UInt32 := rotateRight x 7 ^^^ rotateRight x 18 ^^^ (x >>> 3)
def smallSigma1 (x : UInt32) : UInt32 := rotateRight x 17 ^^^ rotateRight x 19 ^^^ (x >>> 10)

def roundConstants : List UInt32 :=
  [0x428a2f98, 0x71374491, 0xb5c0fbcf, 0xe9b5dba5, 0x3956c25b, 0x59f111f1, 0x923f82a4, 0xab1c5ed5,
    0xd807aa98, 0x12835b01, 0x243185be, 0x550c7dc3, 0x72be5d74, 0x80deb1fe, 0x9bdc06a7, 0xc19bf174,
    0xe49b69c1, 0xefbe4786, 0x0fc19dc6, 0x240ca1cc, 0x2de92c6f, 0x4a7484aa, 0x5cb0a9dc, 0x76f988da,
    0x983e5152, 0xa831c66d, 0xb00327c8, 0xbf597fc7, 0xc6e00bf3, 0xd5a79147, 0x06ca6351, 0x14292967,
    0x27b70a85, 0x2e1b2138, 0x4d2c6dfc, 0x53380d13, 0x650a7354, 0x766a0abb, 0x81c2c92e, 0x92722c85,
    0xa2bfe8a1, 0xa81a664b, 0xc24b8b70, 0xc76c51a3, 0xd192e819, 0xd6990624, 0xf40e3585, 0x106aa070,
    0x19a4c116, 0x1e376c08, 0x2748774c, 0x34b0bcb5, 0x391c0cb3, 0x4ed8aa4a, 0x5b9cca4f, 0x682e6ff3,
    0x748f82ee, 0x78a5636f, 0x84c87814, 0x8cc70208, 0x90befffa, 0xa4506ceb, 0xbef9a3f7, 0xc67178f2]

/-- The eight chaining words. -/
structure State where
  a : UInt32
  b : UInt32
  c : UInt32
  d : UInt32
  e : UInt32
  f : UInt32
  g : UInt32
  h : UInt32

namespace State

def initial : State :=
  ⟨0x6a09e667, 0xbb67ae85, 0x3c6ef372, 0xa54ff53a, 0x510e527f, 0x9b05688c, 0x1f83d9ab, 0x5be0cd19⟩

def add (s t : State) : State :=
  ⟨s.a + t.a, s.b + t.b, s.c + t.c, s.d + t.d, s.e + t.e, s.f + t.f, s.g + t.g, s.h + t.h⟩

def words (s : State) : List UInt32 := [s.a, s.b, s.c, s.d, s.e, s.f, s.g, s.h]

/-- One round, on a round constant and a word of the schedule. -/
def round (s : State) (kw : UInt32 × UInt32) : State :=
  let t1 := s.h + bigSigma1 s.e + choose s.e s.f s.g + kw.1 + kw.2
  let t2 := bigSigma0 s.a + majority s.a s.b s.c
  ⟨t1 + t2, s.a, s.b, s.c, s.d + t1, s.e, s.f, s.g⟩

end State

/-- The last byte comes first in the number: big-endian words of four bytes. -/
def wordsOf : Bytes → List UInt32
  | w :: x :: y :: z :: rest =>
    ((w.toUInt32 <<< 24) ||| (x.toUInt32 <<< 16) ||| (y.toUInt32 <<< 8) ||| z.toUInt32) :: wordsOf rest
  | _ => []

/-- `n` more words in front of a schedule that is kept newest first. -/
def extend : ℕ → List UInt32 → List UInt32
  | 0, w => w
  | n + 1, w => extend n ((smallSigma1 (w.getD 1 0) + w.getD 6 0 + smallSigma0 (w.getD 14 0) + w.getD 15 0) :: w)

def schedule (block : Bytes) : List UInt32 := (extend 48 (wordsOf block).reverse).reverse

def compress (s : State) (block : Bytes) : State :=
  s.add ((roundConstants.zip (schedule block)).foldl State.round s)

def lengthBytes (n : ℕ) : Bytes := [56, 48, 40, 32, 24, 16, 8, 0].map fun shift => UInt8.ofNat (8 * n / 2 ^ shift)

def pad (data : Bytes) : Bytes :=
  data ++ 128 :: List.replicate ((119 - data.length % 64) % 64) 0 ++ lengthBytes data.length

/-- The first `n` blocks of 64 bytes. -/
def blocks : ℕ → Bytes → List Bytes
  | 0, _ => []
  | n + 1, data => data.take 64 :: blocks n (data.drop 64)

def hash (data : Bytes) : State :=
  (blocks ((pad data).length / 64) (pad data)).foldl compress .initial

/-! ## Hexadecimal digests -/

def hexDigits : List Char := "0123456789abcdef".toList

def hexDigit (n : UInt32) : Char := hexDigits.getD (n &&& 15).toNat '0'

/-- The eight digits of a word. -/
def hexWord (w : UInt32) : List Char := ([28, 24, 20, 16, 12, 8, 4, 0] : List UInt32).map fun shift => hexDigit (w >>> shift)

def hexdigest (data : Bytes) : String := String.ofList ((hash data).words.flatMap hexWord)

def isHex (c : Char) : Bool := c.isDigit || ('a' ≤ c && c ≤ 'f')

theorem isHex_hexDigit (n : UInt32) : isHex (hexDigit n) = true := by
  have hall : ∀ i < 16, isHex (hexDigits.getD i '0') = true := by decide
  refine hall _ ?_
  rw [UInt32.toNat_and]
  exact Nat.lt_succ_of_le Nat.and_le_right

theorem hexdigest_hex (data : Bytes) : Regex.fullmatch (.times (.one isHex) 64) (hexdigest data) = true := by
  rw [Regex.fullmatch_iff, hexdigest, String.toList_ofList, Regex.matches_times_one]
  refine ⟨rfl, fun c hc => ?_⟩
  obtain ⟨w, -, hc⟩ := List.mem_flatMap.mp hc
  obtain ⟨shift, -, rfl⟩ := List.mem_map.mp hc
  exact isHex_hexDigit _

end HarnessConformance.Lib.Sha256
