import HarnessConformance.Lib.Checked
import HarnessConformance.Lib.Civil
import HarnessConformance.Lib.Digits

/-! # Times of the enforcement probes

`time.rs` of the probes: the texts `%Y-%m-%dT%H:%M:%SZ` and the seconds since the epoch, by era arithmetic
on 64 bits. Division truncates, apart from `div_euclid`. -/

namespace HarnessConformance.Enforcement
open Lib Lib.Outcome Lib.Lines Lib.Utf8 Lib.Checked Lib.Digits
set_option autoImplicit false

/-! ## Dates -/

def leap (year : ℤ) : Bool := year.tmod 4 = 0 ∧ (year.tmod 100 ≠ 0 ∨ year.tmod 400 = 0)

/-- `days_in_month` -/
def daysInMonth (year month : ℤ) : ℤ :=
  if month = 2 ∧ leap year then 29
  else if month = 2 then 28
  else if month = 4 ∨ month = 6 ∨ month = 9 ∨ month = 11 then 30
  else 31

/-- `days_from_civil` -/
def daysFromCivil (year month day : ℤ) : MayPanic ℤ := do
  let y ← (if month ≤ 2 then i64 (year - 1) else pure year)
  let era := y / 400
  let yoe ← i64 (y - (← i64 (era * 400)))
  let mp := (← i64 (month + 9)).tmod 12
  let months := (← i64 ((← i64 (153 * mp)) + 2)).tdiv 5
  let doy ← i64 ((← i64 (months + day)) - 1)
  let fours ← i64 ((← i64 (yoe * 365)) + yoe.tdiv 4)
  let doe ← i64 ((← i64 (fours - yoe.tdiv 100)) + doy)
  i64 ((← i64 ((← i64 (era * 146097)) + doe)) - 719468)

/-- `civil_from_days` -/
def civilFromDays (days : ℤ) : MayPanic Civil.Date := do
  let z ← i64 (days + 719468)
  let era := z / 146097
  let doe ← i64 (z - (← i64 (era * 146097)))
  let fours ← i64 (doe - doe.tdiv 1460)
  let yoe := (← i64 ((← i64 (fours + doe.tdiv 36524)) - doe.tdiv 146096)).tdiv 365
  let start ← i64 ((← i64 ((← i64 (365 * yoe)) + yoe.tdiv 4)) - yoe.tdiv 100)
  let doy ← i64 (doe - start)
  let mp := (← i64 ((← i64 (5 * doy)) + 2)).tdiv 153
  let months := (← i64 ((← i64 (153 * mp)) + 2)).tdiv 5
  let day ← i64 ((← i64 (doy - months)) + 1)
  let month ← (if mp < 10 then i64 (mp + 3) else i64 (mp - 9))
  let year ← i64 (yoe + (← i64 (era * 400)))
  let year ← (if month ≤ 2 then i64 (year + 1) else pure year)
  pure ⟨year, month, day⟩

/-! ## Texts -/

/-- `{:0width}` of a signed number: the sign is a part of the width. -/
def pad (width : ℕ) (n : ℤ) : List Char :=
  let digits := Nat.toDigits 10 n.natAbs
  if n < 0 then '-' :: (List.replicate (width - 1 - digits.length) '0' ++ digits)
  else List.replicate (width - digits.length) '0' ++ digits

/-- `"{:04}-{:02}-{:02}T{:02}:{:02}:{:02}Z"` -/
def spell (date : Civil.Date) (hour minute second : ℤ) : List Char :=
  pad 4 date.year ++ '-' :: (pad 2 date.month ++ '-' :: (pad 2 date.day ++ 'T' :: (pad 2 hour ++ ':' ::
    (pad 2 minute ++ ':' :: (pad 2 second ++ ['Z'])))))

/-- `format_utc` -/
def formatUtc (seconds : ℤ) : MayPanic (List Char) := do
  let days := seconds / 86400
  let rest := seconds % 86400
  let date ← civilFromDays days
  pure (spell date (rest.tdiv 3600) ((rest.tmod 3600).tdiv 60) (rest.tmod 60))

/-- Digits and a sign, read as an `i64`. -/
def readMagnitude (sign : ℤ) (digits : Bytes) : Option ℤ :=
  let n := sign * (byteValue digits : ℕ)
  if digits ≠ [] ∧ digits.all isAsciiDigit ∧ Fits n then some n else none

/-- `part.parse().ok()` -/
def parseI64 (part : Bytes) : Option ℤ :=
  match part with
  | 43 :: digits => readMagnitude 1 digits
  | 45 :: digits => readMagnitude (-1) digits
  | digits => readMagnitude 1 digits

/-- The closure `number` of `parse_utc`. -/
def number (text : List Char) (start stop : ℕ) : MayPanic (Option ℤ) := do
  let part ← slice (encodeText text) start stop
  if !part.all isAsciiDigit then pure none else pure (parseI64 part)

/-- The bytes between the fields. -/
def HasSeparators (b : Bytes) : Prop :=
  b.length = 20 ∧ b[4]? = some 45 ∧ b[7]? = some 45 ∧ b[10]? = some 84 ∧ b[13]? = some 58 ∧ b[16]? = some 58 ∧ b[19]? = some 90

instance (b : Bytes) : Decidable (HasSeparators b) := inferInstanceAs (Decidable (_ ∧ _))

/-- `parse_utc` -/
def parseUtc (text : List Char) : MayPanic (Option ℤ) := do
  if ¬ HasSeparators (encodeText text) then pure none
  else
    let some year ← number text 0 4 | pure none
    let some month ← number text 5 7 | pure none
    let some day ← number text 8 10 | pure none
    let some hour ← number text 11 13 | pure none
    let some minute ← number text 14 16 | pure none
    let some second ← number text 17 19 | pure none
    if ¬ (1 ≤ month ∧ month ≤ 12) ∨ day < 1 ∨ day > daysInMonth year month ∨ hour > 23 ∨ minute > 59 ∨ second > 59 then pure none
    else
      let days ← i64 ((← daysFromCivil year month day) * 86400)
      let hours ← i64 (days + (← i64 (hour * 3600)))
      let minutes ← i64 (hours + (← i64 (minute * 60)))
      let seconds ← i64 (minutes + second)
      if (← formatUtc seconds) ≠ text then pure none else pure (some seconds)

example : formatUtc 951782400 = .ok "2000-02-29T00:00:00Z".toList := by decide +kernel

example : parseUtc "2000-02-29T00:00:00Z".toList = .ok (some 951782400) := by decide +kernel

end HarnessConformance.Enforcement
