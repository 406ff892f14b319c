import HarnessConformance.Lib.JsonText
import HarnessConformance.Lib.Regex

/-! # JSON text with fractions

A reader of JSON text that takes every number, keeps the last of several members with one name, and accepts escapes
of lone surrogates: a string is its code points. The text is cut into tokens, and the tokens are read. Spaces and
line feeds stand between tokens only, so that a line can be shifted (`loads_shifted`). -/

namespace HarnessConformance.Lib.JsonLoads
open Json (isSpace hex4 unescape natOfDigits)
set_option autoImplicit false

abbrev Text := List Char

/-- A value read. A float is its numeral. -/
inductive Loaded where
  | null
  | bool (b : Bool)
  | int (n : ℤ)
  | float (numeral : Text)
  | str (points : List ℕ)
  | arr (items : List Loaded)
  | obj (members : List (List ℕ × Loaded))

/-- How deep containers may nest, and how many digits an integer may have. -/
structure ReadLimits where
  nesting : ℕ
  digits : ℕ

inductive Token where
  | mark (c : Char)
  | str (points : List ℕ)
  | scalar (v : Loaded)

/-! ## Tokens -/

def integerPattern : Regex :=
  .seq (.upTo (.char '-') 1) (.alt (.char '0') (.seq (.one fun c => '1' ≤ c && c ≤ '9') (.star (.one Char.isDigit))))

def numberPattern : Regex :=
  .seq integerPattern (.seq (.upTo (.seq (.char '.') (.plus (.one Char.isDigit))) 1)
    (.upTo (.seq (.one fun c => c == 'e' || c == 'E') (.seq (.upTo (.one fun c => c == '+' || c == '-') 1)
      (.plus (.one Char.isDigit)))) 1))

def integer : Text → ℤ
  | '-' :: digits => -(natOfDigits digits : ℤ)
  | digits => natOfDigits digits

/-- A constant or a number. -/
def scalar (limits : ReadLimits) (word : Text) : Option Loaded :=
  if word = "null".toList then some .null
  else if word = "true".toList then some (.bool true)
  else if word = "false".toList then some (.bool false)
  else if integerPattern.fullmatchChars word then
    if (word.filter (· ≠ '-')).length ≤ limits.digits then some (.int (integer word)) else none
  else if numberPattern.fullmatchChars word then some (.float word)
  else none

def isHigh (u : ℕ) : Bool := 0xd800 ≤ u && u ≤ 0xdbff

def isLow (u : ℕ) : Bool := 0xdc00 ≤ u && u ≤ 0xdfff

/-- The code points of the text between two quotes. -/
def points : Text → Option (List ℕ)
  | [] => some []
  | '\\' :: 'u' :: a :: b :: c :: d :: rest => do
    let u ← hex4 a b c d
    match rest with
    | '\\' :: 'u' :: e :: f :: g :: h :: behind =>
      let w ← hex4 e f g h
      if isHigh u && isLow w then do
        let more ← points behind
        some ((0x10000 + (u - 0xd800) * 0x400 + (w - 0xdc00)) :: more)
      else do
        let more ← points ('\\' :: 'u' :: e :: f :: g :: h :: behind)
        some (u :: more)
    | rest => do
      let more ← points rest
      some (u :: more)
  | '\\' :: e :: rest => do
    let c ← unescape e
    let more ← points rest
    some (c.toNat :: more)
  | c :: rest => do
    let more ← points rest
    some (c.toNat :: more)

def isMark (c : Char) : Bool := c ∈ ['[', ']', '{', '}', ':', ',']

def isWordChar (c : Char) : Bool := c.isAlphanum || c ∈ ['+', '-', '.']

/-- Where the reader stands: between tokens, in a word, or in a string. What was read of it is held backwards. -/
inductive Mode where
  | between
  | word (read : Text)
  | string (read : Text) (escaped : Bool)

def lex (limits : ReadLimits) : Mode → Text → Option (List Token)
  | .between, [] => some []
  | .word read, [] => do
    let v ← scalar limits read.reverse
    some [.scalar v]
  | .string _ _, [] => none
  | .between, c :: cs =>
    if isSpace c then lex limits .between cs
    else if isMark c then (lex limits .between cs).map (.mark c :: ·)
    else if c = '"' then lex limits (.string [] false) cs
    else if isWordChar c then lex limits (.word [c]) cs
    else none
  | .word read, c :: cs =>
    if isWordChar c then lex limits (.word (c :: read)) cs
    else do
      let v ← scalar limits read.reverse
      if isSpace c then (lex limits .between cs).map (.scalar v :: ·)
      else if isMark c then (lex limits .between cs).map (.scalar v :: .mark c :: ·)
      else none
  | .string read escaped, c :: cs =>
    if c.toNat < 32 then none
    else if escaped then lex limits (.string (c :: read) false) cs
    else if c = '\\' then lex limits (.string (c :: read) true) cs
    else if c = '"' then do
      let s ← points read.reverse
      (lex limits .between cs).map (.str s :: ·)
    else lex limits (.string (c :: read) false) cs

/-! ## Values -/

/-- A member set in a dictionary: an earlier one of its name keeps its place. -/
def setMember (members : List (List ℕ × Loaded)) (member : List ℕ × Loaded) : List (List ℕ × Loaded) :=
  if member.1 ∈ members.map Prod.fst then members.map fun m => if m.1 = member.1 then member else m else members ++ [member]

mutual
def value : ℕ → ℕ → List Token → Option (Loaded × List Token)
  | _ + 1, _, .str s :: rest => some (.str s, rest)
  | _ + 1, _, .scalar v :: rest => some (v, rest)
  | _ + 1, _ + 1, .mark '[' :: .mark ']' :: rest => some (.arr [], rest)
  | fuel + 1, nesting + 1, .mark '[' :: rest => do
    let (v, rest) ← value fuel nesting rest
    let (vs, rest) ← items fuel nesting rest
    some (.arr (v :: vs), rest)
  | _ + 1, _ + 1, .mark '{' :: .mark '}' :: rest => some (.obj [], rest)
  | fuel + 1, nesting + 1, .mark '{' :: .str k :: .mark ':' :: rest => do
    let (v, rest) ← value fuel nesting rest
    let (ms, rest) ← members fuel nesting rest
    some (.obj (((k, v) :: ms).foldl setMember []), rest)
  | _, _, _ => none
def items : ℕ → ℕ → List Token → Option (List Loaded × List Token)
  | _ + 1, _, .mark ']' :: rest => some ([], rest)
  | fuel + 1, nesting, .mark ',' :: rest => do
    let (v, rest) ← value fuel nesting rest
    let (vs, rest) ← items fuel nesting rest
    some (v :: vs, rest)
  | _, _, _ => none
def members : ℕ → ℕ → List Token → Option (List (List ℕ × Loaded) × List Token)
  | _ + 1, _, .mark '}' :: rest => some ([], rest)
  | fuel + 1, nesting, .mark ',' :: .str k :: .mark ':' :: rest => do
    let (v, rest) ← value fuel nesting rest
    let (ms, rest) ← members fuel nesting rest
    some ((k, v) :: ms, rest)
  | _, _, _ => none
end

/-- One value and nothing behind it. Every call passes a token, so the number of tokens is fuel enough. -/
def document (limits : ReadLimits) (tokens : List Token) : Option Loaded := do
  let (v, rest) ← value (tokens.length + 1) limits.nesting tokens
  if rest.isEmpty then some v else none

def loads (limits : ReadLimits) (text : Text) : Option Loaded := do
  let tokens ← lex limits .between text
  document limits tokens

/-! ## Shifted lines -/

variable {limits : ReadLimits}

theorem lex_cons_congr {s t : Text} (h : ∀ mode, lex limits mode s = lex limits mode t) (c : Char) (mode : Mode) :
    lex limits mode (c :: s) = lex limits mode (c :: t) := by
  cases mode <;> simp only [lex, h]

theorem lex_append_congr {s t : Text} (h : ∀ mode, lex limits mode s = lex limits mode t) (u : Text) (mode : Mode) :
    lex limits mode (u ++ s) = lex limits mode (u ++ t) := by
  induction u generalizing mode with
  | nil => exact h mode
  | cons c u ih => exact lex_cons_congr ih c mode

theorem lex_space (cs : Text) : lex limits .between (' ' :: cs) = lex limits .between cs := rfl

/-- Behind a line feed a space says nothing: no string holds a line feed, and a word ends there. -/
theorem lex_lineFeed_space (cs : Text) (mode : Mode) : lex limits mode ('\n' :: ' ' :: cs) = lex limits mode ('\n' :: cs) := by
  cases mode <;> rfl

/-- A line of text, and the line without a space that it may begin with. -/
def Shifted (line shifted : Text) : Prop := line = shifted ∨ line = ' ' :: shifted

theorem lex_lineFeed_shifted {line shifted : Text} (h : Shifted line shifted) (rest : Text) (mode : Mode) :
    lex limits mode ('\n' :: (line ++ rest)) = lex limits mode ('\n' :: (shifted ++ rest)) := by
  rcases h with rfl | rfl
  · rfl
  · exact lex_lineFeed_space (shifted ++ rest) mode

theorem lex_shifted {lines shifted : List Text} (h : List.Forall₂ Shifted lines shifted) (mode : Mode) :
    lex limits mode ('\n' :: ['\n'].intercalate lines) = lex limits mode ('\n' :: ['\n'].intercalate shifted) := by
  induction h generalizing mode with
  | nil => rfl
  | @cons line line' _ _ hline hlines ih =>
    cases hlines with
    | nil =>
      have hlast := @lex_lineFeed_shifted limits line line' hline [] mode
      rwa [List.append_nil, List.append_nil, ← @List.intercalate_singleton Char ['\n'] line,
        ← @List.intercalate_singleton Char ['\n'] line'] at hlast
    | cons hnext hlines =>
      rw [List.intercalate_cons_cons, List.intercalate_cons_cons, List.append_assoc, List.append_assoc,
        lex_lineFeed_shifted hline]
      exact lex_append_congr ih ('\n' :: line') mode

/-- A text is read alike when some of its lines are shifted by a space. -/
theorem loads_shifted {lines shifted : List Text} (h : List.Forall₂ Shifted lines shifted) :
    loads limits (['\n'].intercalate lines) = loads limits (['\n'].intercalate shifted) := by
  have htokens : lex limits .between (['\n'].intercalate lines) = lex limits .between (['\n'].intercalate shifted) :=
    lex_shifted h .between
  rw [loads, loads, htokens]

end HarnessConformance.Lib.JsonLoads
