import HarnessConformance.LinuxReadiness

/-! # Timestamps

`datetime.fromisoformat` of the interpreter that the repository pins: the calendar and the week dates, any
separator, the clock with its optional fraction, and the offset, without which a datetime is naive. -/

namespace HarnessConformance.Campaign
open Lib
set_option autoImplicit false

/-- A datetime in microseconds of its own clock since `0001-01-01`, with the offset of that clock from UTC unless it is naive. -/
structure Moment where
  clock : ℤ
  offset : Option ℤ
  deriving DecidableEq

/-! ## Fields -/

/-- The number that the first characters spell, all of them ASCII digits. -/
def readDigits (width : ℕ) (text : List Char) : Option (ℕ × List Char) :=
  let digits := text.take width
  if digits.length = width ∧ digits.all Char.isDigit then some (Json.natOfDigits digits, text.drop width) else none

/-- The index between the date and the time. -/
def separatorOf (text : List Char) : ℕ :=
  if text.length = 7 then 7
  else if text[4]? = some '-' then
    if text[5]? = some 'W' then
      if text[8]? = some '-' then (if text[10]?.any Char.isDigit then 8 else 10) else 8
    else 10
  else if text[4]? = some 'W' then
    let index := 7 + ((text.drop 7).takeWhile Char.isDigit).length
    if index < 9 then index else if index % 2 = 0 then 7 else 8
  else 8

/-- The days from `0001-01-01` to a calendar date. -/
def calendarDays (year month day : ℕ) : Option ℕ :=
  if 1 ≤ year ∧ 1 ≤ month ∧ month ≤ 12 ∧ 1 ≤ day ∧ day ≤ daysInMonth year month then some (daysBefore year month day) else none

/-- A year has 53 weeks when it begins on a Thursday, or on a Wednesday and is a leap year. -/
def isLongYear (year : ℕ) : Bool :=
  let weekday := daysBefore year 1 1 % 7
  weekday = 3 ∨ (weekday = 2 ∧ isLeap year)

/-- The days from `0001-01-01` to a date given by its ISO week. -/
def weekDays (year week day : ℕ) : Option ℕ :=
  if 1 ≤ year ∧ 1 ≤ week ∧ (week ≤ 52 ∨ (week = 53 ∧ isLongYear year)) ∧ 1 ≤ day ∧ day ≤ 7 then
    let first := daysBefore year 1 1
    let monday := first - first % 7 + if first % 7 > 3 then 7 else 0
    let days := monday + (week - 1) * 7 + (day - 1)
    if days < 3652059 then some days else none
  else none

/-- `YYYY-MM-DD`, `YYYYMMDD`, `YYYY-Www`, `YYYYWww`, `YYYY-Www-D` or `YYYYWwwD`, up to the separator. -/
def parseDate (text : List Char) : Option ℕ := do
  let (year, rest) ← readDigits 4 text
  let dashed := rest.head? = some '-'
  let rest := if dashed then rest.tail else rest
  if rest.head? = some 'W' then
    let (week, rest) ← readDigits 2 rest.tail
    if rest = [] then weekDays year week 1
    else if dashed ∧ rest.head? ≠ some '-' then none
    else
      let (day, _) ← readDigits 1 (if dashed then rest.tail else rest)
      weekDays year week day
  else
    let (month, rest) ← readDigits 2 rest
    if dashed ∧ rest.head? ≠ some '-' then none
    else
      let (day, _) ← readDigits 2 (if dashed then rest.tail else rest)
      calendarDays year month day

/-! ## Clocks -/

/-- Hours, minutes, seconds and microseconds, and whether text is left behind them. The interpreter takes a NUL for
the end of the text. -/
structure Clock where
  fields : List ℕ
  micros : ℕ
  more : Bool

/-- Whether `*p` is not the end of the text, where `follows` says what stands behind it. -/
def isMore (text : List Char) (follows : Bool) : Bool :=
  match text with
  | [] => follows
  | c :: _ => c ≠ '\x00'

/-- The fraction of a second: six digits count, further ones are skipped. -/
def parseFraction (fields : List ℕ) (text : List Char) (follows : Bool) : Option Clock := do
  let width := min 6 text.length
  let (fraction, rest) ← readDigits width text
  pure ⟨fields, fraction * 10 ^ (6 - width), isMore (rest.dropWhile Char.isDigit) follows⟩

/-- `[HH[:?MM[:?SS]]]` with a fraction; `follows` says that the offset stands behind the text. -/
def parseClock : ℕ → List ℕ → Bool → Bool → List Char → Option Clock
  | 0, fields, _, follows, text => parseFraction fields text follows
  | turns + 1, fields, separated, follows, text => do
    let (value, rest) ← readDigits 2 text
    let fields := fields ++ [value]
    match rest with
    | [] => pure ⟨fields, 0, follows⟩
    | [_] => pure ⟨fields, 0, isMore rest follows⟩
    | c :: more =>
      let separated := if fields.length = 1 then c = ':' else separated
      if separated ∧ c = ':' then parseClock turns fields separated follows more
      else if c = '.' ∨ c = ',' then parseFraction fields more follows
      else if !separated then parseClock turns fields separated follows rest
      else none

def Clock.seconds (c : Clock) : ℕ := c.fields.getD 0 0 * 3600 + c.fields.getD 1 0 * 60 + c.fields.getD 2 0

def Clock.microseconds (c : Clock) : ℤ := c.seconds * 1000000 + c.micros

def Clock.valid (c : Clock) : Bool := c.fields.getD 0 0 < 24 ∧ c.fields.getD 1 0 < 60 ∧ c.fields.getD 2 0 < 60

/-- The microseconds of the day and the offset. -/
def parseTime (text : List Char) : Option (ℤ × Option ℤ) := do
  let isSign (c : Char) : Bool := c = '+' ∨ c = '-' ∨ c = 'Z'
  let front := text.takeWhile fun c => !isSign c
  let zone := text.dropWhile fun c => !isSign c
  let clock ← parseClock 3 [] true (zone ≠ []) front
  if !clock.valid then none
  else
    match zone with
    | [] => if clock.more then none else pure (clock.microseconds, none)
    | 'Z' :: rest => if isMore rest false then none else pure (clock.microseconds, some 0)
    | sign :: rest =>
      let offset ← parseClock 3 [] true false rest
      if offset.more ∨ 86400 ≤ offset.seconds then none
      else pure (clock.microseconds, some (if sign = '-' then -offset.microseconds else offset.microseconds))

/-- The time from the separator on; a separator of one byte may stand at the end. -/
def parseAfterDate (text : List Char) : Option (ℤ × Option ℤ) :=
  if text.length ≤ 1 ∧ text.all fun c => c.toNat < 128 then pure (0, none) else parseTime text.tail

/-- `datetime.fromisoformat(text)`, with `none` for `ValueError`. -/
def fromisoformat (text : List Char) : Option Moment := do
  if text.length < 7 then none
  else
    let separator := separatorOf text
    let days ← parseDate (text.take separator)
    let (micros, offset) ← parseAfterDate (text.drop separator)
    pure ⟨days * 86400000000 + micros, offset⟩

/-! ## Order -/

def Moment.isAware (m : Moment) : Bool := m.offset.isSome

/-- `left <= right`; a naive datetime is not compared with an aware one. -/
def Moment.le (left right : Moment) : Py Bool :=
  match left.offset, right.offset with
  | some a, some b => .ok (left.clock - a ≤ right.clock - b)
  | none, none => .ok (left.clock ≤ right.clock)
  | _, _ => .error .typeError

/-- `require_time(value, name)` of `schema.py` -/
def requireTime (value : Json) (name : String) : Py Moment :=
  let refusal : PyError := .conformance "INVALID_TIME" (name ++ " must be UTC RFC3339")
  match value with
  | .str text =>
    if text.length ≤ 40 ∧ text.toList.getLast? = some 'Z' then
      match fromisoformat (text.toList.dropLast ++ "+00:00".toList) with
      | some moment => .ok moment
      | none => .error refusal
    else .error refusal
  | _ => .error refusal

theorem conforms_requireTime (value : Json) (name : String) : Conforms (requireTime value name) := by
  unfold requireTime
  dsimp only
  split
  · split_ifs
    · split
      · exact conforms_ok
      · exact conforms_conformance
    · exact conforms_conformance
  · exact conforms_conformance

end HarnessConformance.Campaign
