import HarnessConformance.Enforcement.Calendar

/-! # The codec of times

`format_utc` spells every 64-bit count of seconds, and `parse_utc` reads the spellings of the years 0 to 9999
and no other text. Neither panics. -/

namespace HarnessConformance.Enforcement
open Lib Lib.Outcome Lib.Lines Lib.Utf8 Lib.Checked Lib.Digits
set_option autoImplicit false

/-! ## Instants -/

/-- A second of the calendar. -/
structure Stamp where
  date : Civil.Date
  hour : ℤ
  minute : ℤ
  second : ℤ

namespace Stamp

structure Valid (t : Stamp) : Prop where
  date : t.date.Valid
  hour : 0 ≤ t.hour ∧ t.hour ≤ 23
  minute : 0 ≤ t.minute ∧ t.minute ≤ 59
  second : 0 ≤ t.second ∧ t.second ≤ 59

/-- Days since `1970-01-01`. -/
def days (t : Stamp) : ℤ := t.date.number - 719162

def clock (t : Stamp) : ℤ := t.hour * 3600 + t.minute * 60 + t.second

def seconds (t : Stamp) : ℤ := t.days * 86400 + t.clock

def text (t : Stamp) : List Char := spell t.date t.hour t.minute t.second

variable {t u : Stamp}

theorem Valid.clock_range (h : t.Valid) : 0 ≤ t.clock ∧ t.clock < 86400 := by
  obtain ⟨-, hh, hm, hs⟩ := h
  unfold clock
  omega

theorem seconds_injective (ht : t.Valid) (hu : u.Valid) (h : t.seconds = u.seconds) : t = u := by
  have htc := ht.clock_range
  have huc := hu.clock_range
  unfold seconds at h
  have hdays : t.days = u.days := by omega
  have hclock : t.clock = u.clock := by omega
  have hdate : t.date = u.date := Civil.Date.number_injective ht.date hu.date (by unfold days at hdays; omega)
  obtain ⟨td, th, tm, ts⟩ := t
  obtain ⟨ud, uh, um, us⟩ := u
  obtain ⟨-, hh, hm, hs⟩ := ht
  obtain ⟨-, hh', hm', hs'⟩ := hu
  unfold clock at hclock
  dsimp only at *
  rw [Stamp.mk.injEq]
  exact ⟨hdate, by omega, by omega, by omega⟩

end Stamp

theorem formatUtc_spec {s : ℤ} (h : Fits s) : ∃ t : Stamp, t.Valid ∧ t.seconds = s ∧ formatUtc s = .ok t.text ∧
    civilFromDays (s / 86400) = .ok t.date := by
  unfold Fits at h
  obtain ⟨d, hcivil, hvalid, hnumber, -⟩ := @civilFromDays_spec (s / 86400) (by omega)
  have hrest : 0 ≤ s % 86400 ∧ s % 86400 < 86400 := by omega
  have hhour : (s % 86400).tdiv 3600 = s % 86400 / 3600 := Int.tdiv_eq_ediv_of_nonneg hrest.1
  have hminute : ((s % 86400).tmod 3600).tdiv 60 = s % 86400 % 3600 / 60 := by
    rw [Int.tmod_eq_emod_of_nonneg hrest.1, Int.tdiv_eq_ediv_of_nonneg (by omega)]
  have hsecond : (s % 86400).tmod 60 = s % 86400 % 60 := Int.tmod_eq_emod_of_nonneg hrest.1
  refine ⟨⟨d, s % 86400 / 3600, s % 86400 % 3600 / 60, s % 86400 % 60⟩, ⟨hvalid, by dsimp only; omega, by dsimp only; omega,
    by dsimp only; omega⟩, ?_, ?_, hcivil⟩
  · unfold Stamp.seconds Stamp.days Stamp.clock
    dsimp only
    omega
  · rw [formatUtc, hcivil, ok_bind, hhour, hminute, hsecond]
    rfl

/-! ## Spellings -/

/-- `YYYY-MM-DDThh:mm:ssZ` in digits, with the numbers that they spell. -/
def Spells (text : List Char) (t : Stamp) : Prop :=
  ∃ year month day hour minute second : List Char,
    text = year ++ '-' :: (month ++ '-' :: (day ++ 'T' :: (hour ++ ':' :: (minute ++ ':' :: (second ++ ['Z']))))) ∧
    year.length = 4 ∧ month.length = 2 ∧ day.length = 2 ∧ hour.length = 2 ∧ minute.length = 2 ∧ second.length = 2 ∧
    AreDigits year ∧ AreDigits month ∧ AreDigits day ∧ AreDigits hour ∧ AreDigits minute ∧ AreDigits second ∧
    t = ⟨⟨Json.natOfDigits year, Json.natOfDigits month, Json.natOfDigits day⟩, Json.natOfDigits hour, Json.natOfDigits minute,
      Json.natOfDigits second⟩

theorem pad_natCast {width n : ℕ} (hwidth : 0 < width) (h : n < 10 ^ width) : pad width n = fixed width n := by
  unfold pad
  rw [if_neg (by omega), Int.natAbs_natCast]
  exact zeros_toDigits hwidth h

theorem pad_natOfDigits {u : List Char} (hpos : 0 < u.length) (h : AreDigits u) : pad u.length (Json.natOfDigits u) = u := by
  rw [pad_natCast hpos (natOfDigits_lt h), fixed_natOfDigits h]

theorem Spells.text_eq {text : List Char} {t : Stamp} (h : Spells text t) : t.text = text := by
  obtain ⟨year, month, day, hour, minute, second, rfl, hY, hM, hD, hh, hm, hs, dY, dM, dD, dh, dm, ds, rfl⟩ := h
  have pY := pad_natOfDigits (by omega : 0 < year.length) dY
  have pM := pad_natOfDigits (by omega : 0 < month.length) dM
  have pD := pad_natOfDigits (by omega : 0 < day.length) dD
  have ph := pad_natOfDigits (by omega : 0 < hour.length) dh
  have pm := pad_natOfDigits (by omega : 0 < minute.length) dm
  have ps := pad_natOfDigits (by omega : 0 < second.length) ds
  rw [hY] at pY
  rw [hM] at pM
  rw [hD] at pD
  rw [hh] at ph
  rw [hm] at pm
  rw [hs] at ps
  unfold Stamp.text spell
  dsimp only
  rw [pY, pM, pD, ph, pm, ps]

/-- The years of four digits. -/
def Stamp.HasYear (t : Stamp) : Prop := 0 ≤ t.date.year ∧ t.date.year ≤ 9999

instance (t : Stamp) : Decidable t.HasYear := inferInstanceAs (Decidable (_ ∧ _))

theorem Spells.hasYear {text : List Char} {t : Stamp} (h : Spells text t) : t.HasYear := by
  obtain ⟨year, month, day, hour, minute, second, -, hY, -, -, -, -, -, dY, -, -, -, -, -, rfl⟩ := h
  have hlt := natOfDigits_lt dY
  rw [hY] at hlt
  unfold Stamp.HasYear
  dsimp only
  omega

theorem spells_text {t : Stamp} (ht : t.Valid) (hyear : t.HasYear) : Spells t.text t := by
  obtain ⟨⟨⟨hmonth1, hmonth2⟩, hday1, hday2⟩, hh, hm, hs⟩ := ht
  obtain ⟨hyear1, hyear2⟩ := hyear
  have hday3 : t.date.day ≤ 31 := by
    unfold Civil.monthLength at hday2
    split_ifs at hday2 <;> omega
  obtain ⟨⟨year, month, day⟩, hour, minute, second⟩ := t
  dsimp only at *
  obtain ⟨year, rfl⟩ := Int.eq_ofNat_of_zero_le hyear1
  obtain ⟨month, rfl⟩ := Int.eq_ofNat_of_zero_le (by omega : 0 ≤ month)
  obtain ⟨day, rfl⟩ := Int.eq_ofNat_of_zero_le (by omega : 0 ≤ day)
  obtain ⟨hour, rfl⟩ := Int.eq_ofNat_of_zero_le hh.1
  obtain ⟨minute, rfl⟩ := Int.eq_ofNat_of_zero_le hm.1
  obtain ⟨second, rfl⟩ := Int.eq_ofNat_of_zero_le hs.1
  have four : year < 10 ^ 4 := by omega
  have two : month < 10 ^ 2 ∧ day < 10 ^ 2 ∧ hour < 10 ^ 2 ∧ minute < 10 ^ 2 ∧ second < 10 ^ 2 := by omega
  obtain ⟨tM, tD, th, tm, ts⟩ := two
  have value {width n : ℕ} (h : n < 10 ^ width) : Json.natOfDigits (fixed width n) = n := by
    rw [natOfDigits_fixed, Nat.mod_eq_of_lt h]
  refine ⟨fixed 4 year, fixed 2 month, fixed 2 day, fixed 2 hour, fixed 2 minute, fixed 2 second, ?_, length_fixed _ _,
    length_fixed _ _, length_fixed _ _, length_fixed _ _, length_fixed _ _, length_fixed _ _, areDigits_fixed _ _,
    areDigits_fixed _ _, areDigits_fixed _ _, areDigits_fixed _ _, areDigits_fixed _ _, areDigits_fixed _ _, ?_⟩
  · unfold Stamp.text spell
    dsimp only
    rw [pad_natCast (by decide) four, pad_natCast (by decide) tM, pad_natCast (by decide) tD, pad_natCast (by decide) th,
      pad_natCast (by decide) tm, pad_natCast (by decide) ts]
  · rw [value four, value tM, value tD, value th, value tm, value ts]

/-! ## Numbers -/

theorem utf8EncodeChar_ascii {c : Char} (h : c.toNat < 128) : String.utf8EncodeChar c = [asciiByte c] := by
  have hval : c.val.toNat ≤ 127 := Nat.le_of_lt_succ h
  unfold String.utf8EncodeChar
  exact if_pos hval

theorem encodeText_ascii {u : List Char} (h : ∀ c ∈ u, c.toNat < 128) : encodeText u = u.map asciiByte := by
  induction u with
  | nil => rfl
  | cons c u ih =>
    obtain ⟨hc, hu⟩ := List.forall_mem_cons.mp h
    rw [encodeText_cons, utf8EncodeChar_ascii hc, ih hu, List.map_cons, List.singleton_append]

/-- Digits alone are read without a sign. -/
theorem parseI64_digits {part : Bytes} (h : part.all isAsciiDigit = true) (hpos : part ≠ []) (hlength : part.length ≤ 18) :
    parseI64 part = some ((byteValue part : ℕ) : ℤ) := by
  have hlt := byteValue_lt h
  have hbound : byteValue part < 10 ^ 18 := hlt.trans_le (Nat.pow_le_pow_right (by decide) hlength)
  have hread : readMagnitude 1 part = some ((byteValue part : ℕ) : ℤ) := by
    have hfits : Fits (1 * (byteValue part : ℕ)) := by
      unfold Fits
      omega
    unfold readMagnitude
    change (if part ≠ [] ∧ part.all isAsciiDigit ∧ Fits (1 * (byteValue part : ℕ)) then some (1 * ((byteValue part : ℕ) : ℤ)) else none) = _
    rw [if_pos ⟨hpos, h, hfits⟩, one_mul]
  obtain ⟨b, rest, rfl⟩ := List.exists_cons_of_ne_nil hpos
  have hb : isAsciiDigit b = true := (Bool.and_eq_true _ _ ▸ (List.all_cons ▸ h)).1
  unfold parseI64
  split
  · rename_i heq
    rw [(List.cons.inj heq).1] at hb
    exact absurd hb (by decide)
  · rename_i heq
    rw [(List.cons.inj heq).1] at hb
    exact absurd hb (by decide)
  · exact hread

/-- A number of digits between two ASCII bytes is read; nothing panics. -/
theorem number_eq {text : List Char} {start stop : ℕ} {part : Bytes} (hslice : slice (encodeText text) start stop = .ok part)
    (hpos : part ≠ []) (hlength : part.length ≤ 18) :
    number text start stop = .ok (if part.all isAsciiDigit then some (byteValue part : ℤ) else none) := by
  rw [number, hslice, ok_bind]
  cases hdigits : part.all isAsciiDigit with
  | false => rfl
  | true =>
    rw [parseI64_digits hdigits hpos hlength]
    rfl

/-- The bytes of a field. -/
def field (text : List Char) (start stop : ℕ) : Bytes := ((encodeText text).take stop).drop start

/-- The number that a field spells, if all its bytes are digits. -/
def fieldValue (text : List Char) (start stop : ℕ) : Option ℤ :=
  if (field text start stop).all isAsciiDigit then some ((byteValue (field text start stop) : ℕ) : ℤ) else none

theorem length_field {text : List Char} (h : HasSeparators (encodeText text)) {start stop : ℕ} (hstop : stop ≤ 20) :
    (field text start stop).length = stop - start := by
  have hlength := h.1
  rw [field, List.length_drop, List.length_take]
  omega

/-- No field cuts a character: it begins the text or stands behind a separator, and a separator stands behind it. -/
theorem number_field {text : List Char} (h : HasSeparators (encodeText text)) :
    number text 0 4 = .ok (fieldValue text 0 4) ∧ number text 5 7 = .ok (fieldValue text 5 7) ∧
    number text 8 10 = .ok (fieldValue text 8 10) ∧ number text 11 13 = .ok (fieldValue text 11 13) ∧
    number text 14 16 = .ok (fieldValue text 14 16) ∧ number text 17 19 = .ok (fieldValue text 17 19) := by
  have hread {start stop : ℕ} (hslice : slice (encodeText text) start stop = .ok (field text start stop)) (hlt : start < stop)
      (hstop : stop ≤ 20) (hshort : stop - start ≤ 18) : number text start stop = .ok (fieldValue text start stop) := by
    have hlength := @length_field text h start stop hstop
    exact number_eq hslice (List.ne_nil_of_length_pos (by omega)) (by omega)
  obtain ⟨-, h4, h7, h10, h13, h16, h19⟩ := h
  refine ⟨hread ?_ (by decide) (by decide) (by decide), hread ?_ (by decide) (by decide) (by decide),
    hread ?_ (by decide) (by decide) (by decide), hread ?_ (by decide) (by decide) (by decide),
    hread ?_ (by decide) (by decide) (by decide), hread ?_ (by decide) (by decide) (by decide)⟩
  · exact slice_of_ascii (by decide) (.inl rfl) h4 (by decide)
  · exact slice_of_ascii (by decide) (.inr ⟨4, _, rfl, h4, by decide⟩) h7 (by decide)
  · exact slice_of_ascii (by decide) (.inr ⟨7, _, rfl, h7, by decide⟩) h10 (by decide)
  · exact slice_of_ascii (by decide) (.inr ⟨10, _, rfl, h10, by decide⟩) h13 (by decide)
  · exact slice_of_ascii (by decide) (.inr ⟨13, _, rfl, h13, by decide⟩) h16 (by decide)
  · exact slice_of_ascii (by decide) (.inr ⟨16, _, rfl, h16, by decide⟩) h19 (by decide)

theorem fieldValue_range {text : List Char} (h : HasSeparators (encodeText text)) {start stop : ℕ} (hstop : stop ≤ 20) {n : ℤ}
    (hn : fieldValue text start stop = some n) : 0 ≤ n ∧ n < 10 ^ (stop - start) := by
  unfold fieldValue at hn
  split_ifs at hn with hdigits
  obtain rfl := Option.some.inj hn
  have hlt := byteValue_lt hdigits
  rw [length_field h hstop] at hlt
  exact ⟨Int.natCast_nonneg _, by exact_mod_cast hlt⟩

/-! ## Reading -/

/-- The end of `parse_utc`, with the six numbers. -/
def readStamp (text : List Char) (t : Stamp) : MayPanic (Option ℤ) :=
  if ¬ (1 ≤ t.date.month ∧ t.date.month ≤ 12) ∨ t.date.day < 1 ∨ t.date.day > daysInMonth t.date.year t.date.month ∨ t.hour > 23 ∨
      t.minute > 59 ∨ t.second > 59 then pure none
  else do
    let days ← i64 ((← daysFromCivil t.date.year t.date.month t.date.day) * 86400)
    let hours ← i64 (days + (← i64 (t.hour * 3600)))
    let minutes ← i64 (hours + (← i64 (t.minute * 60)))
    let seconds ← i64 (minutes + t.second)
    if (← formatUtc seconds) ≠ text then pure none else pure (some seconds)

theorem parseUtc_eq {text : List Char} (h : HasSeparators (encodeText text)) : parseUtc text =
    match fieldValue text 0 4, fieldValue text 5 7, fieldValue text 8 10, fieldValue text 11 13, fieldValue text 14 16,
      fieldValue text 17 19 with
    | some year, some month, some day, some hour, some minute, some second =>
      readStamp text ⟨⟨year, month, day⟩, hour, minute, second⟩
    | _, _, _, _, _, _ => .ok none := by
  obtain ⟨h1, h2, h3, h4, h5, h6⟩ := number_field h
  unfold parseUtc
  rw [if_neg (not_not.mpr h), h1, ok_bind]
  cases fieldValue text 0 4 with
  | none => rfl
  | some year =>
    dsimp only
    rw [h2, ok_bind]
    cases fieldValue text 5 7 with
    | none => rfl
    | some month =>
      dsimp only
      rw [h3, ok_bind]
      cases fieldValue text 8 10 with
      | none => rfl
      | some day =>
        dsimp only
        rw [h4, ok_bind]
        cases fieldValue text 11 13 with
        | none => rfl
        | some hour =>
          dsimp only
          rw [h5, ok_bind]
          cases fieldValue text 14 16 with
          | none => rfl
          | some minute =>
            dsimp only
            rw [h6, ok_bind]
            cases fieldValue text 17 19 with
            | none => rfl
            | some second => rfl

/-- A date of four digits is not far from the epoch. -/
theorem number_range {d : Civil.Date} (hd : d.Valid) (hyear : 0 ≤ d.year ∧ d.year ≤ 9999) :
    -1000000 ≤ d.number - 719162 ∧ d.number - 719162 ≤ 4000000 := by
  have hday : d.day ≤ 31 := by
    have hlength := hd.day.2
    unfold Civil.monthLength at hlength
    split_ifs at hlength <;> omega
  have hlow := hd.day.1
  have hmarch : d.year - 1 ≤ d.marchYear ∧ d.marchYear ≤ d.year := by
    unfold Civil.Date.marchYear
    split_ifs <;> omega
  have hmonth : 0 ≤ d.marchMonth ∧ d.marchMonth ≤ 11 := by
    unfold Civil.Date.marchMonth
    omega
  rw [Civil.Date.number_eq_march hd]
  omega

/-- Fields that are an existing second are accepted where the second's own spelling is the text. -/
theorem readStamp_eq {text : List Char} {t : Stamp} (ht : t.Valid) (hyear : t.HasYear) :
    readStamp text t = .ok (if t.text = text then some t.seconds else none) := by
  obtain ⟨hlow, hhigh⟩ := number_range ht.date hyear
  have hdays : daysFromCivil t.date.year t.date.month t.date.day = .ok (t.date.number - 719162) := by
    unfold Stamp.HasYear at hyear
    exact daysFromCivil_eq ht.date (by omega)
  have hgood : ¬(¬ (1 ≤ t.date.month ∧ t.date.month ≤ 12) ∨ t.date.day < 1 ∨ t.date.day > daysInMonth t.date.year t.date.month ∨
      t.hour > 23 ∨ t.minute > 59 ∨ t.second > 59) := by
    obtain ⟨⟨hmonth, hday1, hday2⟩, hh, hm, hs⟩ := ht
    rw [daysInMonth_eq]
    omega
  have hseconds : (t.date.number - 719162) * 86400 + t.hour * 3600 + t.minute * 60 + t.second = t.seconds := by
    unfold Stamp.seconds Stamp.days Stamp.clock
    omega
  have hh := ht.hour
  have hm := ht.minute
  have hs := ht.second
  have hfits : Fits t.seconds := by
    unfold Fits
    omega
  obtain ⟨u, hu, husec, hformat, -⟩ := formatUtc_spec hfits
  obtain rfl : u = t := Stamp.seconds_injective hu ht husec
  unfold readStamp
  rw [if_neg hgood, hdays, ok_bind]
  rw [i64_bind (by unfold Fits; omega), i64_bind (by unfold Fits; omega), i64_bind (by unfold Fits; omega),
    i64_bind (by unfold Fits; omega), i64_bind (by unfold Fits; omega), i64_bind (by unfold Fits; omega), hseconds, hformat, ok_bind]
  by_cases htext : u.text = text
  · rw [if_neg (not_not.mpr htext), if_pos htext]
    rfl
  · rw [if_pos htext, if_neg htext]
    rfl

/-- Six fields in the range of their widths. -/
structure Stamp.InRange (t : Stamp) : Prop where
  year : t.HasYear
  hour : 0 ≤ t.hour
  minute : 0 ≤ t.minute
  second : 0 ≤ t.second

/-- Six fields are accepted exactly where they are an existing second that the text spells. -/
theorem readStamp_spec {text : List Char} {t : Stamp} (h : t.InRange) : ∃ result, readStamp text t = .ok result ∧
    ∀ s, result = some s ↔ t.Valid ∧ t.text = text ∧ t.seconds = s := by
  by_cases hvalid : t.Valid
  · refine ⟨_, readStamp_eq hvalid h.year, fun s => ?_⟩
    by_cases htext : t.text = text
    · rw [if_pos htext, Option.some.injEq]
      exact ⟨fun hs => ⟨hvalid, htext, hs⟩, fun hs => hs.2.2⟩
    · rw [if_neg htext]
      exact ⟨fun hs => absurd hs (by simp), fun hs => absurd hs.2.1 htext⟩
  · refine ⟨none, ?_, fun s => ⟨fun hs => absurd hs (by simp), fun hs => absurd hs.1 hvalid⟩⟩
    have hbad : ¬ (1 ≤ t.date.month ∧ t.date.month ≤ 12) ∨ t.date.day < 1 ∨ t.date.day > daysInMonth t.date.year t.date.month ∨
        t.hour > 23 ∨ t.minute > 59 ∨ t.second > 59 := by
      by_contra hgood
      rw [daysInMonth_eq] at hgood
      have hhour := h.hour
      have hminute := h.minute
      have hsecond := h.second
      exact hvalid ⟨⟨by omega, by omega⟩, by omega, by omega, by omega⟩
    unfold readStamp
    rw [if_pos hbad]
    rfl

/-- The second that the six fields of a text are. -/
def fieldStamp (text : List Char) : Option Stamp := do
  let year ← fieldValue text 0 4
  let month ← fieldValue text 5 7
  let day ← fieldValue text 8 10
  let hour ← fieldValue text 11 13
  let minute ← fieldValue text 14 16
  let second ← fieldValue text 17 19
  pure ⟨⟨year, month, day⟩, hour, minute, second⟩

theorem parseUtc_eq_readStamp {text : List Char} (h : HasSeparators (encodeText text)) :
    parseUtc text = (fieldStamp text).elim (.ok none) (readStamp text) := by
  rw [parseUtc_eq h, fieldStamp]
  cases fieldValue text 0 4 <;> [rfl; skip]
  cases fieldValue text 5 7 <;> [rfl; skip]
  cases fieldValue text 8 10 <;> [rfl; skip]
  cases fieldValue text 11 13 <;> [rfl; skip]
  cases fieldValue text 14 16 <;> [rfl; skip]
  cases fieldValue text 17 19 <;> rfl

theorem inRange_of_fieldStamp {text : List Char} (h : HasSeparators (encodeText text)) {t : Stamp} (ht : fieldStamp text = some t) :
    t.InRange := by
  unfold fieldStamp at ht
  obtain ⟨year, hyear, ht⟩ := Option.bind_eq_some_iff.mp ht
  obtain ⟨month, -, ht⟩ := Option.bind_eq_some_iff.mp ht
  obtain ⟨day, -, ht⟩ := Option.bind_eq_some_iff.mp ht
  obtain ⟨hour, hhour, ht⟩ := Option.bind_eq_some_iff.mp ht
  obtain ⟨minute, hminute, ht⟩ := Option.bind_eq_some_iff.mp ht
  obtain ⟨second, hsecond, ht⟩ := Option.bind_eq_some_iff.mp ht
  obtain rfl := Option.some.inj ht
  have hrange := fieldValue_range h (by decide) hyear
  refine ⟨⟨hrange.1, ?_⟩, (fieldValue_range h (by decide) hhour).1, (fieldValue_range h (by decide) hminute).1,
    (fieldValue_range h (by decide) hsecond).1⟩
  have hlt := hrange.2
  norm_num at hlt
  dsimp only
  omega

/-- A text in the shape of a time has its separators, and its fields are its numbers. -/
theorem Spells.fields {text : List Char} {t : Stamp} (h : Spells text t) :
    HasSeparators (encodeText text) ∧ fieldStamp text = some t := by
  obtain ⟨year, month, day, hour, minute, second, rfl, hY, hM, hD, hh, hm, hs, dY, dM, dD, dh, dm, ds, rfl⟩ := h
  have hascii : ∀ c ∈ year ++ '-' :: (month ++ '-' :: (day ++ 'T' :: (hour ++ ':' :: (minute ++ ':' :: (second ++ ['Z']))))),
      c.toNat < 128 := by
    have hdigits {u : List Char} (du : AreDigits u) : ∀ c ∈ u, c.toNat < 128 := fun c hc => ascii_of_isDigit (du c hc)
    simp only [List.forall_mem_append, List.forall_mem_cons, List.not_mem_nil, false_implies, implies_true, and_true]
    exact ⟨hdigits dY, by decide, hdigits dM, by decide, hdigits dD, by decide, hdigits dh, by decide, hdigits dm, by decide,
      hdigits ds, by decide⟩
  have hall {u : List Char} (du : AreDigits u) : (u.map asciiByte).all isAsciiDigit = true := by
    rw [List.all_eq_true]
    intro b hb
    obtain ⟨c, hc, rfl⟩ := List.mem_map.mp hb
    exact isAsciiDigit_asciiByte (du c hc)
  have hvalue {start stop : ℕ} {text u : List Char} (hfield : field text start stop = u.map asciiByte) (du : AreDigits u) :
      fieldValue text start stop = some ((Json.natOfDigits u : ℕ) : ℤ) := by
    rw [fieldValue, hfield, if_pos (hall du), byteValue_map du]
  have hbytes := encodeText_ascii hascii
  obtain ⟨a, b, c, d, rfl⟩ := List.length_eq_four.mp hY
  obtain ⟨e, f, rfl⟩ := List.length_eq_two.mp hM
  obtain ⟨g, h, rfl⟩ := List.length_eq_two.mp hD
  obtain ⟨i, j, rfl⟩ := List.length_eq_two.mp hh
  obtain ⟨k, l, rfl⟩ := List.length_eq_two.mp hm
  obtain ⟨m, n, rfl⟩ := List.length_eq_two.mp hs
  simp only [List.cons_append, List.nil_append] at hbytes ⊢
  have hfield {start stop : ℕ} {u : List Char} (hu : ((([a, b, c, d, '-', e, f, '-', g, h, 'T', i, j, ':', k, l, ':', m, n, 'Z'].map
      asciiByte).take stop).drop start) = u.map asciiByte) :
      field [a, b, c, d, '-', e, f, '-', g, h, 'T', i, j, ':', k, l, ':', m, n, 'Z'] start stop = u.map asciiByte := by
    rw [field, hbytes, hu]
  constructor
  · rw [hbytes]
    exact ⟨rfl, rfl, rfl, rfl, rfl, rfl, rfl⟩
  · unfold fieldStamp
    rw [hvalue (@hfield 0 4 _ rfl) dY, hvalue (@hfield 5 7 _ rfl) dM, hvalue (@hfield 8 10 _ rfl) dD,
      hvalue (@hfield 11 13 _ rfl) dh, hvalue (@hfield 14 16 _ rfl) dm, hvalue (@hfield 17 19 _ rfl) ds]
    rfl

/-- `parse_utc` never panics, and accepts the spellings of existing seconds alone. -/
theorem parseUtc_spec (text : List Char) : ∃ result, parseUtc text = .ok result ∧
    ∀ s, result = some s ↔ ∃ t : Stamp, t.Valid ∧ Spells text t ∧ t.seconds = s := by
  by_cases h : HasSeparators (encodeText text)
  · rw [parseUtc_eq_readStamp h]
    cases hfields : fieldStamp text with
    | none =>
      refine ⟨none, rfl, fun s => ⟨fun hs => absurd hs (by simp), ?_⟩⟩
      rintro ⟨t, -, hspells, -⟩
      rw [hspells.fields.2] at hfields
      cases hfields
    | some t =>
      have hrange := inRange_of_fieldStamp h hfields
      obtain ⟨result, hread, hresult⟩ := @readStamp_spec text t hrange
      refine ⟨result, hread, fun s => (hresult s).trans ⟨?_, ?_⟩⟩
      · rintro ⟨hvalid, rfl, hs⟩
        exact ⟨t, hvalid, spells_text hvalid hrange.year, hs⟩
      · rintro ⟨u, hvalid, hspells, hs⟩
        obtain rfl : t = u := Option.some.inj (hfields.symm.trans hspells.fields.2)
        exact ⟨hvalid, hspells.text_eq, hs⟩
  · refine ⟨none, ?_, fun s => ⟨fun hs => absurd hs (by simp), ?_⟩⟩
    · unfold parseUtc
      rw [if_pos h]
      rfl
    · rintro ⟨t, -, hspells, -⟩
      exact absurd hspells.fields.1 h

/-! ## Round trip -/

theorem fits_int64 (s : Int64) : Fits s.toInt := by
  have hlow := s.le_toInt
  have hhigh := s.toInt_lt
  exact ⟨hlow, hhigh⟩

/-- A year of fewer or more digits is not spelled in four. -/
theorem hasYear_of_pad {year : ℤ} {digits rest rest' : List Char} (hlength : digits.length = 4) (hdigits : AreDigits digits)
    (h : pad 4 year ++ '-' :: rest = digits ++ '-' :: rest') : 0 ≤ year ∧ year ≤ 9999 := by
  unfold pad at h
  by_cases hneg : year < 0
  · rw [if_pos hneg] at h
    obtain ⟨a, b, c, d, rfl⟩ := List.length_eq_four.mp hlength
    have hdash : '-'.isDigit = true := (List.cons.inj h).1 ▸ hdigits a List.mem_cons_self
    exact absurd hdash (by decide)
  · rw [if_neg hneg] at h
    refine ⟨not_lt.mp hneg, ?_⟩
    by_contra hlarge
    have hlong : 4 < (Nat.toDigits 10 year.natAbs).length := by
      by_contra hshort
      have hlt := (Nat.length_toDigits_le_iff (by decide) (by decide)).mp (not_lt.mp hshort)
      omega
    rw [Nat.sub_eq_zero_of_le hlong.le, List.replicate_zero, List.nil_append] at h
    have hfifth := congrArg (fun text : List Char => text[4]?) h
    rw [List.getElem?_append_left hlong, List.getElem?_append_right (by omega), hlength] at hfifth
    have hdash : '-'.isDigit = true := Nat.isDigit_of_mem_toDigits (by decide) (by decide) (List.mem_of_getElem? hfifth)
    exact absurd hdash (by decide)

theorem parseUtc_text {t : Stamp} (ht : t.Valid) : parseUtc t.text = .ok (if t.HasYear then some t.seconds else none) := by
  obtain ⟨result, hread, hresult⟩ := parseUtc_spec t.text
  rw [hread]
  congr 1
  by_cases hyear : t.HasYear
  · rw [if_pos hyear]
    exact (hresult _).mpr ⟨t, ht, spells_text ht hyear, rfl⟩
  · rw [if_neg hyear]
    cases result with
    | none => rfl
    | some s =>
      obtain ⟨u, -, ⟨year, _, _, _, _, _, htext, hY, -, -, -, -, -, dY, -⟩, -⟩ := (hresult s).mp rfl
      exact absurd (hasYear_of_pad hY dY htext) hyear

/-! ## Order -/

theorem Spells.seconds_le {a b : List Char} {t u : Stamp} (ht : t.Valid) (hu : u.Valid) (ha : Spells a t) (hb : Spells b u)
    (h : a ≤ b) : t.seconds ≤ u.seconds := by
  obtain ⟨year, month, day, hour, minute, second, rfl, hY, hM, hD, hh, hm, hs, dY, dM, dD, dh, dm, ds, rfl⟩ := ha
  obtain ⟨year', month', day', hour', minute', second', rfl, hY', hM', hD', hh', hm', hs', dY', dM', dD', dh', dm', ds', rfl⟩ := hb
  have hct := ht.clock_range
  have hcu := hu.clock_range
  have hskip {c : Char} {u v : List Char} (h : c :: u ≤ c :: v) : u ≤ v :=
    (lex_cons h).elim (fun hlt => absurd hlt (lt_irrefl c)) And.right
  have hbefore {t u : Stamp} (ht : t.Valid) (hu : u.Valid) (hlt : t.date.Before u.date) : t.seconds ≤ u.seconds := by
    have hdays := Civil.Date.number_lt ht.date hu.date hlt
    have hct := ht.clock_range
    have hcu := hu.clock_range
    unfold Stamp.seconds Stamp.days
    omega
  rcases lex_digits (hY.trans hY'.symm) dY dY' h with hlt | ⟨hyear, h⟩
  · exact hbefore ht hu (.inl (Int.ofNat_lt.mpr hlt))
  rcases lex_digits (hM.trans hM'.symm) dM dM' (hskip h) with hlt | ⟨hmonth, h⟩
  · exact hbefore ht hu (.inr ⟨Int.ofNat_inj.mpr hyear, .inl (Int.ofNat_lt.mpr hlt)⟩)
  rcases lex_digits (hD.trans hD'.symm) dD dD' (hskip h) with hlt | ⟨hday, h⟩
  · exact hbefore ht hu (.inr ⟨Int.ofNat_inj.mpr hyear, .inr ⟨Int.ofNat_inj.mpr hmonth, Int.ofNat_lt.mpr hlt⟩⟩)
  unfold Stamp.seconds Stamp.days
  dsimp only
  rw [hyear, hmonth, hday]
  refine Int.add_le_add_left ?_ _
  have hclock := ht.minute
  have hclock' := ht.second
  unfold Stamp.clock
  dsimp only at *
  rcases lex_digits (hh.trans hh'.symm) dh dh' (hskip h) with hlt | ⟨hhour, h⟩
  · have hminute := hu.minute
    have hsecond := hu.second
    dsimp only at *
    omega
  rcases lex_digits (hm.trans hm'.symm) dm dm' (hskip h) with hlt | ⟨hminute, h⟩
  · have hsecond := hu.second
    dsimp only at *
    omega
  rcases lex_digits (hs.trans hs'.symm) ds ds' (hskip h) with hlt | ⟨hsecond, -⟩
  · omega
  · omega

theorem parseUtc_strictMono {a b : List Char} {s u : ℤ} (h : a < b) (ha : parseUtc a = .ok (some s)) (hb : parseUtc b = .ok (some u)) :
    s < u := by
  obtain ⟨result, hread, hresult⟩ := parseUtc_spec a
  obtain ⟨result', hread', hresult'⟩ := parseUtc_spec b
  obtain ⟨t, ht, hspells, rfl⟩ := (hresult s).mp (Except.ok.inj (hread.symm.trans ha))
  obtain ⟨v, hv, hspells', rfl⟩ := (hresult' u).mp (Except.ok.inj (hread'.symm.trans hb))
  refine lt_of_le_of_ne (hspells.seconds_le ht hv hspells' h.le) fun heq => ?_
  obtain rfl := Stamp.seconds_injective ht hv heq
  exact absurd h (by rw [← hspells.text_eq, ← hspells'.text_eq]; exact lt_irrefl _)

/-! ## The codec -/

/-- A date whose number is not large has a year that is not large. -/
theorem year_range {d : Civil.Date} (hd : d.Valid) (h : -2 ^ 47 ≤ d.number - 719162 ∧ d.number - 719162 ≤ 2 ^ 47) :
    -2 ^ 40 ≤ d.year ∧ d.year ≤ 2 ^ 40 := by
  have hday : d.day ≤ 31 := by
    have hlength := hd.day.2
    unfold Civil.monthLength at hlength
    split_ifs at hlength <;> omega
  have hlow := hd.day.1
  have hmarch : d.year - 1 ≤ d.marchYear ∧ d.marchYear ≤ d.year := by
    unfold Civil.Date.marchYear
    split_ifs <;> omega
  have hmonth : 0 ≤ d.marchMonth ∧ d.marchMonth ≤ 11 := by
    unfold Civil.Date.marchMonth
    omega
  rw [Civil.Date.number_eq_march hd] at h
  omega

theorem day_range (s : Int64) : -2 ^ 47 ≤ s.toInt / 86400 ∧ s.toInt / 86400 ≤ 2 ^ 47 := by
  have h := fits_int64 s
  unfold Fits at h
  omega

/-- The dates and the days of all 64-bit counts of seconds are each other's, `format_utc` and `parse_utc` are inverse on the
years 0 to 9999, `parse_utc` reads the spellings of existing seconds alone and in their order, and nothing panics. -/
theorem calendar_codec :
    (∀ s : Int64, ∃ d : Civil.Date, civilFromDays (s.toInt / 86400) = .ok d ∧ d.Valid ∧
      daysFromCivil d.year d.month d.day = .ok (s.toInt / 86400)) ∧
    (∀ (d : Civil.Date) (s : Int64), d.Valid → d.number - 719162 = s.toInt / 86400 →
      daysFromCivil d.year d.month d.day = .ok (s.toInt / 86400) ∧ civilFromDays (s.toInt / 86400) = .ok d) ∧
    (∀ s : Int64, ∃ text d, formatUtc s.toInt = .ok text ∧ civilFromDays (s.toInt / 86400) = .ok d ∧
      parseUtc text = .ok (if 0 ≤ d.year ∧ d.year ≤ 9999 then some s.toInt else none)) ∧
    (∀ text, ∃ result, parseUtc text = .ok result ∧
      ∀ s, result = some s ↔ ∃ t : Stamp, t.Valid ∧ Spells text t ∧ t.seconds = s) ∧
    (∀ a b s u, a < b → parseUtc a = .ok (some s) → parseUtc b = .ok (some u) → s < u) := by
  refine ⟨fun s => ?_, fun d s hd hnumber => ?_, fun s => ?_, parseUtc_spec, fun a b s u => parseUtc_strictMono⟩
  · obtain ⟨d, hcivil, hvalid, hnumber, hyear⟩ := civilFromDays_spec (day_range s)
    refine ⟨d, hcivil, hvalid, ?_⟩
    rw [daysFromCivil_eq hvalid hyear, hnumber]
  · obtain ⟨e, hcivil, hvalid, hnumber', -⟩ := civilFromDays_spec (day_range s)
    have hrange : -2 ^ 47 ≤ d.number - 719162 ∧ d.number - 719162 ≤ 2 ^ 47 := by
      rw [hnumber]
      exact day_range s
    obtain rfl : d = e := Civil.Date.number_injective hd hvalid (by omega)
    refine ⟨?_, hcivil⟩
    rw [daysFromCivil_eq hd (year_range hd hrange), hnumber]
  · obtain ⟨t, ht, hseconds, hformat, hcivil⟩ := formatUtc_spec (fits_int64 s)
    refine ⟨t.text, t.date, hformat, hcivil, ?_⟩
    rw [parseUtc_text ht, hseconds]
    rfl

end HarnessConformance.Enforcement
