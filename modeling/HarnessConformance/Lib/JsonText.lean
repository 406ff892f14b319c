import HarnessConformance.Lib.Json
import Mathlib

/-! # JSON text without insignificant space, and the strict reader

`encode` writes a value with the separators `,` and `:` alone and escapes nothing it need not.
`decode` reads the JSON grammar with arbitrary insignificant space and refuses fractions,
duplicate members and lone surrogates. The reader is fuelled by the length of its input, and
every recursive call has consumed a character. -/

namespace HarnessConformance.Lib
set_option autoImplicit false

inductive JsonError where
  | invalid
  | float
  | duplicate (key : String)
  | surrogate
  | recursion
  deriving DecidableEq

namespace Json

/-! ## Writing -/

def escapeChar (c : Char) : List Char :=
  if c = '"' then ['\\', '"']
  else if c = '\\' then ['\\', '\\']
  else if c = '\n' then ['\\', 'n']
  else if c = '\r' then ['\\', 'r']
  else if c = '\t' then ['\\', 't']
  else if c = '\x08' then ['\\', 'b']
  else if c = '\x0c' then ['\\', 'f']
  else if c.toNat < 32 then ['\\', 'u', '0', '0', Nat.digitChar (c.toNat / 16), Nat.digitChar (c.toNat % 16)]
  else [c]

/-- The characters with an escape of their own, the other control characters, and all others. -/
theorem escapeChar_cases {P : Char → List Char → Prop} (quote : P '"' ['\\', '"']) (backslash : P '\\' ['\\', '\\'])
    (newline : P '\n' ['\\', 'n']) (ret : P '\r' ['\\', 'r']) (tab : P '\t' ['\\', 't']) (bell : P '\x08' ['\\', 'b'])
    (feed : P '\x0c' ['\\', 'f'])
    (control : ∀ c, c.toNat < 32 → P c ['\\', 'u', '0', '0', Nat.digitChar (c.toNat / 16), Nat.digitChar (c.toNat % 16)])
    (plain : ∀ c, c ≠ '"' → c ≠ '\\' → ¬ c.toNat < 32 → P c [c]) (c : Char) : P c (escapeChar c) := by
  have hstep {p : Prop} [Decidable p] {xs ys : List Char} (hx : p → P c xs) (hy : ¬ p → P c ys) :
      P c (if p then xs else ys) := by
    by_cases hp : p
    · rw [if_pos hp]
      exact hx hp
    · rw [if_neg hp]
      exact hy hp
  refine hstep (fun h => h ▸ quote) fun hquote => ?_
  refine hstep (fun h => h ▸ backslash) fun hback => ?_
  refine hstep (fun h => h ▸ newline) fun _ => ?_
  refine hstep (fun h => h ▸ ret) fun _ => ?_
  refine hstep (fun h => h ▸ tab) fun _ => ?_
  refine hstep (fun h => h ▸ bell) fun _ => ?_
  refine hstep (fun h => h ▸ feed) fun _ => ?_
  exact hstep (control c) (plain c hquote hback)

def encodeString (s : String) : List Char := '"' :: s.toList.flatMap escapeChar ++ ['"']

def encodeNat (n : Nat) : List Char :=
  if n = 0 then ['0'] else (Nat.digits 10 n).reverse.map Nat.digitChar

def encodeInt (n : Int) : List Char := if n < 0 then '-' :: encodeNat n.natAbs else encodeNat n.natAbs

mutual
def encode : Json → List Char
  | null => ['n', 'u', 'l', 'l']
  | bool true => ['t', 'r', 'u', 'e']
  | bool false => ['f', 'a', 'l', 's', 'e']
  | int n => encodeInt n
  | str s => encodeString s
  | arr [] => ['[', ']']
  | arr (v :: vs) => '[' :: encode v ++ encodeItems vs
  | obj [] => ['{', '}']
  | obj ((k, v) :: ms) => '{' :: encodeString k ++ ':' :: encode v ++ encodeMembers ms
def encodeItems : List Json → List Char
  | [] => [']']
  | v :: vs => ',' :: encode v ++ encodeItems vs
def encodeMembers : Members → List Char
  | [] => ['}']
  | (k, v) :: ms => ',' :: encodeString k ++ ':' :: encode v ++ encodeMembers ms
end

attribute [grind =] encode encodeItems encodeMembers

/-! ## Reading -/

def isSpace (c : Char) : Bool := c == ' ' || c == '\t' || c == '\n' || c == '\r'

def skipSpace (cs : List Char) : List Char := cs.dropWhile isSpace

def isDigit (c : Char) : Bool := '0' ≤ c && c ≤ '9'

def natOfDigits (ds : List Char) : Nat := ds.foldl (fun n c => 10 * n + (c.toNat - '0'.toNat)) 0

/-- A fraction or an exponent follows: the number is not an integer. -/
def floatFollows : List Char → Bool
  | '.' :: c :: _ => isDigit c
  | 'e' :: '+' :: c :: _ => isDigit c
  | 'e' :: '-' :: c :: _ => isDigit c
  | 'e' :: c :: _ => isDigit c
  | 'E' :: '+' :: c :: _ => isDigit c
  | 'E' :: '-' :: c :: _ => isDigit c
  | 'E' :: c :: _ => isDigit c
  | _ => false

def finishNumber (n : Int) (rest : List Char) : Except JsonError (Json × List Char) :=
  if floatFollows rest then .error .float else .ok (int n, rest)

def scanNat (sign : Int) : List Char → Except JsonError (Json × List Char)
  | '0' :: rest => finishNumber 0 rest
  | c :: rest =>
    if isDigit c then
      let digits := (c :: rest).takeWhile isDigit
      finishNumber (sign * natOfDigits digits) ((c :: rest).dropWhile isDigit)
    else .error .invalid
  | [] => .error .invalid

/-- The constants `NaN`, `Infinity` and `-Infinity` are read as floats, hence refused as such. -/
def scanNumber : List Char → Except JsonError (Json × List Char)
  | 'N' :: 'a' :: 'N' :: _ => .error .float
  | 'I' :: 'n' :: 'f' :: 'i' :: 'n' :: 'i' :: 't' :: 'y' :: _ => .error .float
  | '-' :: 'I' :: 'n' :: 'f' :: 'i' :: 'n' :: 'i' :: 't' :: 'y' :: _ => .error .float
  | '-' :: cs => scanNat (-1) cs
  | cs => scanNat 1 cs

def unescape : Char → Option Char
  | '"' => some '"'
  | '\\' => some '\\'
  | '/' => some '/'
  | 'b' => some '\x08'
  | 'f' => some '\x0c'
  | 'n' => some '\n'
  | 'r' => some '\r'
  | 't' => some '\t'
  | _ => none

def hexVal (c : Char) : Option Nat :=
  if '0' ≤ c ∧ c ≤ '9' then some (c.toNat - '0'.toNat)
  else if 'a' ≤ c ∧ c ≤ 'f' then some (c.toNat - 'a'.toNat + 10)
  else if 'A' ≤ c ∧ c ≤ 'F' then some (c.toNat - 'A'.toNat + 10)
  else none

def hex4 (a b c d : Char) : Option Nat := do
  pure ((((← hexVal a) * 16 + (← hexVal b)) * 16 + (← hexVal c)) * 16 + (← hexVal d))

def consChar (c : Char) (r : Except JsonError (List Char × List Char)) : Except JsonError (List Char × List Char) := do
  let (s, rest) ← r
  pure (c :: s, rest)

/-- The characters up to the closing quote. A surrogate pair is one character; a surrogate on its
own has no character and is refused. -/
def scanString : List Char → Except JsonError (List Char × List Char)
  | '"' :: rest => .ok ([], rest)
  | '\\' :: 'u' :: a :: b :: c :: d :: rest =>
    match hex4 a b c d with
    | none => .error .invalid
    | some u =>
      if 0xd800 ≤ u ∧ u ≤ 0xdbff then
        match rest with
        | '\\' :: 'u' :: e :: f :: g :: h :: rest' =>
          match hex4 e f g h with
          | none => .error .invalid
          | some w =>
            if 0xdc00 ≤ w ∧ w ≤ 0xdfff then
              consChar (Char.ofNat (0x10000 + (u - 0xd800) * 0x400 + (w - 0xdc00))) (scanString rest')
            else .error .surrogate
        | _ => .error .surrogate
      else if 0xdc00 ≤ u ∧ u ≤ 0xdfff then .error .surrogate
      else consChar (Char.ofNat u) (scanString rest)
  | '\\' :: e :: rest =>
    match unescape e with
    | none => .error .invalid
    | some c => consChar c (scanString rest)
  | c :: rest => if c.toNat < 32 then .error .invalid else consChar c (scanString rest)
  | [] => .error .invalid

attribute [grind =] scanString

/-- Members with a repeated key are refused when the object closes. -/
def pairs (members : Members) : Except JsonError Json :=
  match (keys members).find? fun k => 1 < (keys members).count k with
  | some k => .error (.duplicate k)
  | none => .ok (obj members)

/-- One `"key": value` with the reader of values given. -/
def scanMember (value : List Char → Except JsonError (Json × List Char)) : List Char → Except JsonError ((String × Json) × List Char)
  | '"' :: cs => do
    let (k, rest) ← scanString cs
    match skipSpace rest with
    | ':' :: rest => do
      let (v, rest) ← value (skipSpace rest)
      pure ((String.ofList k, v), rest)
    | _ => .error .invalid
  | _ => .error .invalid

mutual
def decodeValue : Nat → List Char → Except JsonError (Json × List Char)
  | 0, _ => .error .recursion
  | _ + 1, '"' :: cs => do
    let (s, rest) ← scanString cs
    pure (str (String.ofList s), rest)
  | n + 1, '[' :: cs =>
    match skipSpace cs with
    | ']' :: rest => .ok (arr [], rest)
    | cs => do
      let (v, rest) ← decodeValue n cs
      let (vs, rest) ← decodeItems n rest
      pure (arr (v :: vs), rest)
  | n + 1, '{' :: cs =>
    match skipSpace cs with
    | '}' :: rest => .ok (obj [], rest)
    | cs => do
      let (m, rest) ← scanMember (decodeValue n) cs
      let (ms, rest) ← decodeMembers n rest
      let v ← pairs (m :: ms)
      pure (v, rest)
  | _ + 1, 'n' :: 'u' :: 'l' :: 'l' :: rest => .ok (null, rest)
  | _ + 1, 't' :: 'r' :: 'u' :: 'e' :: rest => .ok (bool true, rest)
  | _ + 1, 'f' :: 'a' :: 'l' :: 's' :: 'e' :: rest => .ok (bool false, rest)
  | _ + 1, cs => scanNumber cs
def decodeItems : Nat → List Char → Except JsonError (List Json × List Char)
  | 0, _ => .error .recursion
  | n + 1, cs =>
    match skipSpace cs with
    | ']' :: rest => .ok ([], rest)
    | ',' :: rest => do
      let (v, rest) ← decodeValue n (skipSpace rest)
      let (vs, rest) ← decodeItems n rest
      pure (v :: vs, rest)
    | _ => .error .invalid
def decodeMembers : Nat → List Char → Except JsonError (Members × List Char)
  | 0, _ => .error .recursion
  | n + 1, cs =>
    match skipSpace cs with
    | '}' :: rest => .ok ([], rest)
    | ',' :: rest => do
      let (m, rest) ← scanMember (decodeValue n) (skipSpace rest)
      let (ms, rest) ← decodeMembers n rest
      pure (m :: ms, rest)
    | _ => .error .invalid
end

attribute [grind =] decodeValue decodeItems decodeMembers

/-- A whole document: one value between insignificant space. -/
def decode (text : List Char) : Except JsonError Json := do
  let (v, rest) ← decodeValue (text.length + 1) (skipSpace text)
  match skipSpace rest with
  | [] => pure v
  | _ => .error .invalid

end Json
end HarnessConformance.Lib
