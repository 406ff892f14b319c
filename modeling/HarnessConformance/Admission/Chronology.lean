import HarnessConformance.Admission.Profile
import HarnessConformance.Lib.Digits

/-! # Texts of whole seconds

The sources compare some times as texts. On texts that `_time` reads, that is the order of the instants. -/

namespace HarnessConformance.Admission
open Lib Lib.Outcome Lib.Lines Lib.Digits
set_option autoImplicit false

/-! ## Days -/

/-- Days before the year. -/
def yearStart (year : ℕ) : ℕ := (year - 1) * 365 + (year - 1) / 4 - (year - 1) / 100 + (year - 1) / 400

/-- Days of the year before a month, given by the number of months that have passed. -/
def monthStart (year months : ℕ) : ℕ := ((List.range months).map fun m => daysInMonth year (m + 1)).sum

def yearLength (year : ℕ) : ℕ := if isLeap year then 366 else 365

theorem daysBefore_eq (year month day : ℕ) :
    daysBefore year month day = yearStart year + monthStart year (month - 1) + (day - 1) := rfl

theorem monthStart_succ (year months : ℕ) :
    monthStart year (months + 1) = monthStart year months + daysInMonth year (months + 1) := by
  simp [monthStart, List.range_succ]

theorem monthStart_mono (year : ℕ) : Monotone (monthStart year) := by
  refine monotone_nat_of_le_succ fun months => ?_
  rw [monthStart_succ]
  exact Nat.le_add_right _ _

theorem monthStart_twelve (year : ℕ) : monthStart year 12 = yearLength year := by
  simp only [monthStart, yearLength, daysInMonth]
  cases isLeap year <;> rfl

theorem yearStart_succ {year : ℕ} (h : 1 ≤ year) : yearStart (year + 1) = yearStart year + yearLength year := by
  obtain ⟨n, rfl⟩ := Nat.exists_eq_add_one_of_ne_zero (Nat.ne_zero_of_lt h)
  have hleap : isLeap (n + 1) = true ↔ 4 ∣ n + 1 ∧ (¬ 100 ∣ n + 1 ∨ 400 ∣ n + 1) := by
    simp [isLeap, Nat.dvd_iff_mod_eq_zero]
  have hcentury : 100 ∣ n + 1 → 4 ∣ n + 1 := fun h => (by decide : 4 ∣ 100).trans h
  have hfour : 400 ∣ n + 1 → 100 ∣ n + 1 := fun h => (by decide : 100 ∣ 400).trans h
  have hsmall : n / 100 ≤ n := Nat.div_le_self n 100
  rw [yearStart, yearStart, yearLength, Nat.add_sub_cancel, Nat.add_sub_cancel, Nat.succ_div, Nat.succ_div, Nat.succ_div]
  simp only [hleap]
  generalize n / 4 = q at *
  generalize n / 100 = c at *
  generalize n / 400 = f at *
  by_cases h4 : 4 ∣ n + 1 <;> by_cases h100 : 100 ∣ n + 1 <;> by_cases h400 : 400 ∣ n + 1 <;>
    simp only [h4, h100, h400, if_true, if_false, not_true_eq_false, not_false_eq_true, true_and, false_and, or_true, or_false,
      true_implies, false_implies] at * <;> omega

theorem yearStart_mono : Monotone yearStart := by
  refine monotone_nat_of_le_succ fun n => ?_
  rcases Nat.eq_zero_or_pos n with rfl | hpos
  · exact le_rfl
  · rw [yearStart_succ hpos]
    exact Nat.le_add_right _ _

/-- A date of the calendar. -/
structure Date where
  year : ℕ
  month : ℕ
  day : ℕ

namespace Date

structure Valid (d : Date) : Prop where
  year : 1 ≤ d.year
  month : 1 ≤ d.month ∧ d.month ≤ 12
  day : 1 ≤ d.day ∧ d.day ≤ daysInMonth d.year d.month

def days (d : Date) : ℕ := daysBefore d.year d.month d.day

variable {d e : Date}

/-- A day lies in its month. -/
theorem Valid.lt_month (h : d.Valid) : d.days < yearStart d.year + monthStart d.year d.month := by
  obtain ⟨months, hmonths⟩ := Nat.exists_eq_add_one_of_ne_zero (Nat.ne_zero_of_lt h.month.1)
  have hday := h.day
  rw [days, daysBefore_eq, hmonths, Nat.add_sub_cancel, monthStart_succ]
  rw [hmonths] at hday
  omega

theorem Valid.lt_year (h : d.Valid) : d.days < yearStart (d.year + 1) := by
  have hmonth := h.lt_month
  have hmono := monthStart_mono d.year h.month.2
  rw [monthStart_twelve] at hmono
  rw [yearStart_succ h.year]
  omega

theorem days_of_year (hd : d.Valid) (h : d.year < e.year) : d.days < e.days := by
  have hlt := hd.lt_year
  have hle := yearStart_mono (Nat.succ_le_of_lt h)
  rw [days, days, daysBefore_eq e.year] at *
  rw [Nat.succ_eq_add_one] at hle
  omega

theorem days_of_month (hd : d.Valid) (hyear : d.year = e.year) (h : d.month < e.month) : d.days < e.days := by
  have hlt := hd.lt_month
  have hmono := monthStart_mono d.year (Nat.le_sub_one_of_lt h)
  rw [hyear] at hlt hmono
  rw [days, days, daysBefore_eq e.year] at *
  omega

theorem days_of_day (hd : d.Valid) (h : d.year = e.year ∧ d.month = e.month) (hday : d.day < e.day) : d.days < e.days := by
  have hpos := hd.day.1
  rw [days, days, daysBefore_eq, daysBefore_eq, h.1, h.2]
  omega

end Date

/-! ## Instants -/

/-- A text of seconds, field by field. -/
structure SecondFields (text : List Char) where
  year : List Char
  month : List Char
  day : List Char
  hour : List Char
  minute : List Char
  second : List Char
  text_eq : text = year ++ ('-' :: (month ++ ('-' :: (day ++ ('T' :: (hour ++ (':' :: (minute ++ (':' :: (second ++ ['Z']))))))))))
  year_length : year.length = 4
  lengths : month.length = 2 ∧ day.length = 2 ∧ hour.length = 2 ∧ minute.length = 2 ∧ second.length = 2
  year_digits : AreDigits year
  digits : AreDigits month ∧ AreDigits day ∧ AreDigits hour ∧ AreDigits minute ∧ AreDigits second

theorem secondFields {text : List Char} (h : secondPattern.Matches text) : Nonempty (SecondFields text) := by
  simp only [secondPattern, Regex.matches_chain_cons, Regex.matches_chain_nil, Regex.matches_char, digit,
    Regex.matches_times_one] at h
  obtain ⟨year, _, ⟨hyear, dyear⟩, ⟨_, _, rfl, ⟨month, _, ⟨hmonth, dmonth⟩, ⟨_, _, rfl, ⟨day, _, ⟨hday, dday⟩, ⟨_, _, rfl,
    ⟨hour, _, ⟨hhour, dhour⟩, ⟨_, _, rfl, ⟨minute, _, ⟨hminute, dminute⟩, ⟨_, _, rfl, ⟨second, _, ⟨hsecond, dsecond⟩, ⟨_, _, rfl,
    rfl, rfl⟩, rfl⟩, rfl⟩, rfl⟩, rfl⟩, rfl⟩, rfl⟩, rfl⟩, rfl⟩, rfl⟩, rfl⟩, rfl⟩ := h
  exact ⟨⟨year, month, day, hour, minute, second, by simp, hyear, ⟨hmonth, hday, hhour, hminute, hsecond⟩, dyear,
    ⟨dmonth, dday, dhour, dminute, dsecond⟩⟩⟩

namespace SecondFields

variable {text : List Char} (f : SecondFields text)

def date : Date := ⟨Json.natOfDigits f.year, Json.natOfDigits f.month, Json.natOfDigits f.day⟩

/-- Seconds of the day. -/
def clock : ℕ := (Json.natOfDigits f.hour * 60 + Json.natOfDigits f.minute) * 60 + Json.natOfDigits f.second

theorem fromIsoFormat_eq_some {t : Instant} : fromIsoFormat text = some t ↔
    (f.date.Valid ∧ Json.natOfDigits f.hour < 24 ∧ Json.natOfDigits f.minute < 60 ∧ Json.natOfDigits f.second < 60) ∧
      t = (f.date.days * 86400 + f.clock) * 1000000 := by
  obtain ⟨year, month, day, hour, minute, second, rfl, hyear, ⟨hmonth, hday, hhour, hminute, hsecond⟩, -, -⟩ := f
  obtain ⟨a, b, c, d, rfl⟩ := List.length_eq_four.mp hyear
  obtain ⟨e, f, rfl⟩ := List.length_eq_two.mp hmonth
  obtain ⟨g, h, rfl⟩ := List.length_eq_two.mp hday
  obtain ⟨i, j, rfl⟩ := List.length_eq_two.mp hhour
  obtain ⟨k, l, rfl⟩ := List.length_eq_two.mp hminute
  obtain ⟨m, n, rfl⟩ := List.length_eq_two.mp hsecond
  simp only [List.cons_append, List.nil_append]
  have hiso (T : List Char) (hT : T = [a, b, c, d, '-', e, f, '-', g, h, 'T', i, j, ':', k, l, ':', m, n, 'Z']) :
      (T.drop 0).take 4 = [a, b, c, d] ∧ (T.drop 5).take 2 = [e, f] ∧ (T.drop 8).take 2 = [g, h] ∧ (T.drop 11).take 2 = [i, j] ∧
        (T.drop 14).take 2 = [k, l] ∧ (T.drop 17).take 2 = [m, n] ∧ T.drop 20 = [] := by
    subst hT
    exact ⟨rfl, rfl, rfl, rfl, rfl, rfl, rfl⟩
  obtain ⟨hy, hmo, hd, hh, hmi, hse, hend⟩ := hiso _ rfl
  have hmicros : Json.natOfDigits (([] : List Char) ++ List.replicate 6 '0') = 0 := by decide
  simp only [fromIsoFormat, hy, hmo, hd, hh, hmi, hse, hend, List.takeWhile_nil, List.length_nil, hmicros,
    Option.ite_none_right_eq_some, Option.some.injEq, date, clock]
  constructor
  · rintro ⟨⟨hy, hmo, hmo', hd, hd', hclock⟩, rfl⟩
    refine ⟨⟨⟨hy, ⟨hmo, hmo'⟩, hd, hd'⟩, hclock⟩, ?_⟩
    rw [Date.days]
    ring
  · rintro ⟨⟨hdate, hclock⟩, rfl⟩
    refine ⟨⟨hdate.year, hdate.month.1, hdate.month.2, hdate.day.1, hdate.day.2, hclock⟩, ?_⟩
    rw [Date.days]
    ring

end SecondFields

/-- What reads as times, and stands in the order of texts, stands in that of instants. -/
theorem time_mono {s t : String} {a b : Instant} (hs : time (.str s) = .ok a) (ht : time (.str t) = .ok b)
    (h : s.toList ≤ t.toList) : a ≤ b := by
  have hread {s : String} {a : Instant} (hs : time (.str s) = .ok a) :
      secondPattern.Matches s.toList ∧ fromIsoFormat s.toList = some a := by
    simp only [time, bind_eq_ok, require_eq_ok, exists_const] at hs
    obtain ⟨hpattern, hs⟩ := hs
    refine ⟨Regex.fullmatch_iff.mp hpattern, ?_⟩
    cases hiso : fromIsoFormat s.toList with
    | none => simp [hiso] at hs
    | some t =>
      simp only [hiso, pure_eq_ok] at hs
      rw [hs]
  obtain ⟨hsp, hsi⟩ := hread hs
  obtain ⟨htp, hti⟩ := hread ht
  obtain ⟨f⟩ := secondFields hsp
  obtain ⟨g⟩ := secondFields htp
  obtain ⟨⟨hdf, hfh, hfm, hfs⟩, rfl⟩ := f.fromIsoFormat_eq_some.mp hsi
  obtain ⟨⟨hdg, hgh, hgm, hgs⟩, rfl⟩ := g.fromIsoFormat_eq_some.mp hti
  have hcf : f.clock < 86400 := by
    rw [SecondFields.clock]
    omega
  rw [f.text_eq, g.text_eq] at h
  refine Nat.mul_le_mul_right _ ?_
  obtain ⟨lmf, ldf, lhf, lif, lsf⟩ := f.lengths
  obtain ⟨lmg, ldg, lhg, lig, lsg⟩ := g.lengths
  obtain ⟨mf, df, hf, ifd, sf⟩ := f.digits
  obtain ⟨mg, dg, hg, igd, sg⟩ := g.digits
  have hskip {c : Char} {u v : List Char} (h : c :: u ≤ c :: v) : u ≤ v :=
    (lex_cons h).elim (fun hlt => absurd hlt (lt_irrefl c)) And.right
  rcases lex_digits (f.year_length.trans g.year_length.symm) f.year_digits g.year_digits h with hlt | ⟨hyear, h⟩
  · have hdays := @Date.days_of_year f.date g.date hdf hlt
    omega
  rcases lex_digits (lmf.trans lmg.symm) mf mg (hskip h) with hlt | ⟨hmonth, h⟩
  · have hdays := @Date.days_of_month f.date g.date hdf hyear hlt
    omega
  rcases lex_digits (ldf.trans ldg.symm) df dg (hskip h) with hlt | ⟨hday, h⟩
  · have hdays := @Date.days_of_day f.date g.date hdf ⟨hyear, hmonth⟩ hlt
    omega
  have hdate : f.date = g.date := by simp only [SecondFields.date, hyear, hmonth, hday]
  rw [hdate]
  refine Nat.add_le_add_left ?_ _
  rw [SecondFields.clock, SecondFields.clock]
  rcases lex_digits (lhf.trans lhg.symm) hf hg (hskip h) with hlt | ⟨hhour, h⟩
  · omega
  rcases lex_digits (lif.trans lig.symm) ifd igd (hskip h) with hlt | ⟨hminute, h⟩
  · omega
  rcases lex_digits (lsf.trans lsg.symm) sf sg (hskip h) with hlt | ⟨hsecond, -⟩
  · omega
  · omega

end HarnessConformance.Admission
