import HarnessConformance.Enforcement.Time
import Mathlib

/-! # The era arithmetic

`days_from_civil` numbers the dates of the calendar, and `civil_from_days` finds the date of a number. -/

namespace HarnessConformance.Enforcement
open Lib Lib.Outcome Lib.Checked
set_option autoImplicit false

/-! ## From dates to days -/

theorem tmod_eq_zero_iff (a b : ℤ) : a.tmod b = 0 ↔ a % b = 0 := by
  rw [← Int.dvd_iff_tmod_eq_zero, ← Int.dvd_iff_emod_eq_zero]

theorem leap_iff (year : ℤ) : leap year = true ↔ Civil.IsLeap year := by
  simp only [leap, decide_eq_true_eq, Civil.IsLeap, tmod_eq_zero_iff, ne_eq]

theorem daysInMonth_eq (year month : ℤ) : daysInMonth year month = Civil.monthLength year month := by
  unfold daysInMonth Civil.monthLength
  simp only [leap_iff]
  split_ifs <;> simp_all

theorem i64_of_abs {n : ℤ} (h : -2 ^ 62 ≤ n ∧ n ≤ 2 ^ 62) : i64 n = .ok n := i64_of (by unfold Fits; omega)

theorem daysFromCivil_eq {d : Civil.Date} (h : d.Valid) (hyear : -2 ^ 40 ≤ d.year ∧ d.year ≤ 2 ^ 40) :
    daysFromCivil d.year d.month d.day = .ok (d.number - 719162) := by
  rw [Civil.Date.number_eq_march h]
  have hlength : d.day ≤ 31 := by
    have hday := h.day.2
    unfold Civil.monthLength at hday
    split_ifs at hday <;> omega
  obtain ⟨⟨hlow, hhigh⟩, hday, -⟩ := h
  have hy : (if d.month ≤ 2 then i64 (d.year - 1) else pure d.year : MayPanic ℤ) = .ok d.marchYear := by
    unfold Civil.Date.marchYear
    split_ifs
    · exact i64_of_abs (by omega)
    · rfl
  have hrange : -2 ^ 41 ≤ d.marchYear ∧ d.marchYear ≤ 2 ^ 41 := by
    unfold Civil.Date.marchYear
    split_ifs <;> omega
  have hmp : (d.month + 9).tmod 12 = d.marchMonth := Int.tmod_eq_emod_of_nonneg (by omega)
  have hmonth : 0 ≤ d.marchMonth ∧ d.marchMonth ≤ 11 := by
    unfold Civil.Date.marchMonth
    omega
  unfold daysFromCivil
  rw [hy, ok_bind]
  generalize d.marchYear = y at *
  generalize hm : d.marchMonth = mp at *
  have hera : 0 ≤ y - y / 400 * 400 ∧ y - y / 400 * 400 ≤ 399 := by omega
  rw [i64_bind (by unfold Fits; omega), i64_bind (by unfold Fits; omega), i64_bind (by unfold Fits; omega), hmp]
  rw [i64_bind (by unfold Fits; omega), i64_bind (by unfold Fits; omega)]
  rw [Int.tdiv_eq_ediv_of_nonneg (by omega), Int.tdiv_eq_ediv_of_nonneg (by omega), Int.tdiv_eq_ediv_of_nonneg (by omega)]
  have hsplit : y = 400 * (y / 400) + (y - y / 400 * 400) := by omega
  have hquot : y / 4 = 100 * (y / 400) + (y - y / 400 * 400) / 4 ∧ y / 100 = 4 * (y / 400) + (y - y / 400 * 400) / 100 := by omega
  rw [hquot.1, hquot.2]
  have hrange' : -2 ^ 41 ≤ y / 400 ∧ y / 400 ≤ 2 ^ 41 := by omega
  generalize y - y / 400 * 400 = yoe at *
  generalize y / 400 = era at *
  subst hsplit
  clear hquot hm hmp hy
  have hyoe : 0 ≤ yoe / 4 ∧ yoe / 4 ≤ 100 ∧ 0 ≤ yoe / 100 ∧ yoe / 100 ≤ 4 := by omega
  have hmonths : 0 ≤ (153 * mp + 2) / 5 ∧ (153 * mp + 2) / 5 ≤ 400 := by omega
  generalize (153 * mp + 2) / 5 = months at *
  generalize yoe / 4 = fours at *
  generalize yoe / 100 = centuries at *
  rw [i64_bind (by unfold Fits; omega), i64_bind (by unfold Fits; omega), i64_bind (by unfold Fits; omega),
    i64_bind (by unfold Fits; omega), i64_bind (by unfold Fits; omega), i64_bind (by unfold Fits; omega),
    i64_bind (by unfold Fits; omega), i64_bind (by unfold Fits; omega), i64_of (by unfold Fits; omega)]
  congr 1
  ring
example : (⟨1970, 1, 1⟩ : Civil.Date).number = 719162 := by decide

/-! ## From days to dates -/

/-- A day of an era: its century, its four years and the day in these. -/
structure EraDay (doe c q t : ℤ) : Prop where
  century : 0 ≤ c ∧ c ≤ 3
  fours : 0 ≤ q ∧ q ≤ 24
  day : 0 ≤ t ∧ t ≤ 1460
  doe_eq : doe = 36524 * c + 1461 * q + t
  last : q = 24 → c ≤ 2 → t < 1460

theorem exists_eraDay {doe : ℤ} (h : 0 ≤ doe ∧ doe ≤ 146096) : ∃ c q t, EraDay doe c q t := by
  by_cases hlast : doe = 146096
  · exact ⟨3, 24, 1460, by omega, by omega, by omega, by omega, by omega⟩
  · exact ⟨doe / 36524, doe % 36524 / 1461, doe % 36524 % 1461, by omega, by omega, by omega, by omega, by omega⟩

namespace EraDay
variable {doe c q t : ℤ} (h : EraDay doe c q t)
include h

theorem centuries : doe / 36524 - doe / 146096 = c := by
  obtain ⟨hc, hq, ht, rfl, hlast⟩ := h
  by_cases hend : c = 3 ∧ q = 24 ∧ t = 1460
  · obtain ⟨rfl, rfl, rfl⟩ := hend
    decide
  · have hsmall : 1461 * q + t < 36524 := by omega
    have hfirst : (36524 * c + 1461 * q + t) / 36524 = c := by omega
    have hsecond : (36524 * c + 1461 * q + t) / 146096 = 0 := by omega
    rw [hfirst, hsecond, sub_zero]

/-- The year of a day in its era: the corrections of the divisions cancel the leap days before it. -/
theorem yoe_eq : (doe - doe / 1460 + doe / 36524 - doe / 146096) / 365 = 100 * c + 4 * q + min (t / 365) 3 := by
  have hcenturies := h.centuries
  obtain ⟨hc, hq, ht, hdoe, hlast⟩ := h
  have hleaps : doe / 1460 = 25 * c + q + (24 * c + q + t) / 1460 := by omega
  have hcarry : 24 * c + q + t < 1460 ∨ (1460 ≤ 24 * c + q + t ∧ 24 * c + q + t < 2920) := by omega
  have hdays : doe - doe / 1460 + doe / 36524 - doe / 146096 =
      365 * (100 * c + 4 * q) + (t - (24 * c + q + t) / 1460) := by omega
  rw [hdays]
  omega

end EraDay

/-- A quotient of a day of an era. -/
theorem quotient_range {doe : ℤ} (h : 0 ≤ doe ∧ doe ≤ 146096) {b : ℤ} (hb : 0 < b) : 0 ≤ doe / b ∧ doe / b ≤ 146096 :=
  ⟨Int.ediv_nonneg h.1 hb.le, (Int.ediv_le_self b h.1).trans h.2⟩

/-- The year of an era that a day lies in, and the day of that year, which begins in March. -/
theorem EraDay.exists_year {doe c q t : ℤ} (h : EraDay doe c q t) : ∃ k, (0 ≤ k ∧ k ≤ 3) ∧
    (doe - doe / 1460 + doe / 36524 - doe / 146096) / 365 = 100 * c + 4 * q + k ∧ 0 ≤ t - 365 * k ∧
    (t - 365 * k < 365 ∨ k = 3 ∧ t = 1460) := by
  have hday := h.day
  refine ⟨min (t / 365) 3, by omega, h.yoe_eq, by omega, by omega⟩

/-- The first half of `civil_from_days`: the era, the year in it and the day of that year. -/
theorem civilFromDays_eq {z c q t k : ℤ} (hz : -2 ^ 48 ≤ z ∧ z ≤ 2 ^ 48) (h : EraDay (z - z / 146097 * 146097) c q t)
    (hk : 0 ≤ k ∧ k ≤ 3) (hyoe : ((z - z / 146097 * 146097) - (z - z / 146097 * 146097) / 1460 + (z - z / 146097 * 146097) / 36524 -
      (z - z / 146097 * 146097) / 146096) / 365 = 100 * c + 4 * q + k) : civilFromDays (z - 719468) = (do
    let doy := t - 365 * k
    let mp := (← i64 ((← i64 (5 * doy)) + 2)).tdiv 153
    let months := (← i64 ((← i64 (153 * mp)) + 2)).tdiv 5
    let day ← i64 ((← i64 (doy - months)) + 1)
    let month ← (if mp < 10 then i64 (mp + 3) else i64 (mp - 9))
    let year ← i64 (100 * c + 4 * q + k + (← i64 (z / 146097 * 400)))
    let year ← (if month ≤ 2 then i64 (year + 1) else pure year)
    pure ⟨year, month, day⟩) := by
  have hdoe : 0 ≤ z - z / 146097 * 146097 ∧ z - z / 146097 * 146097 ≤ 146096 := by omega
  have hera : -2 ^ 49 ≤ z / 146097 * 146097 ∧ z / 146097 * 146097 ≤ 2 ^ 49 := by
    clear h hyoe
    omega
  unfold civilFromDays
  rw [i64_bind (by unfold Fits; omega)]
  simp only [sub_add_cancel]
  rw [i64_bind (by unfold Fits; omega), i64_bind (by unfold Fits; omega)]
  obtain ⟨hc, hq, ht, hdoe_eq, -⟩ := h
  generalize z - z / 146097 * 146097 = doe at *
  generalize z / 146097 * 400 = eras at *
  clear hera hz
  have h1 := quotient_range hdoe (by decide : (0 : ℤ) < 1460)
  have h2 := quotient_range hdoe (by decide : (0 : ℤ) < 36524)
  have h3 := quotient_range hdoe (by decide : (0 : ℤ) < 146096)
  rw [Int.tdiv_eq_ediv_of_nonneg hdoe.1, Int.tdiv_eq_ediv_of_nonneg hdoe.1, Int.tdiv_eq_ediv_of_nonneg hdoe.1]
  generalize doe / 1460 = fours at *
  generalize doe / 36524 = centuries at *
  generalize doe / 146096 = eraEnd at *
  have hyear : 0 ≤ 100 * c + 4 * q + k ∧ 100 * c + 4 * q + k ≤ 399 := by
    clear hyoe h1 h2 h3
    omega
  have hquarter : (100 * c + 4 * q + k) / 4 = 25 * c + q := by
    clear hyoe h1 h2 h3 hdoe_eq
    omega
  have hcentury : (100 * c + 4 * q + k) / 100 = c := by
    clear hyoe h1 h2 h3 hdoe_eq
    omega
  have hnonneg : 0 ≤ doe - fours + centuries - eraEnd := by
    by_contra hneg
    have hquotient := Int.ediv_neg_of_neg_of_pos (not_le.mp hneg) (by decide : (0 : ℤ) < 365)
    rw [hyoe] at hquotient
    exact absurd hquotient (not_lt.mpr hyear.1)
  have hfits : Fits (doe - fours) ∧ Fits (doe - fours + centuries) ∧ Fits (doe - fours + centuries - eraEnd) := by
    clear hyoe hdoe_eq hc hq ht hk hyear hquarter hcentury
    unfold Fits
    omega
  rw [i64_bind hfits.1, i64_bind hfits.2.1, i64_bind hfits.2.2, Int.tdiv_eq_ediv_of_nonneg hnonneg, hyoe, Int.tdiv_eq_ediv_of_nonneg hyear.1, Int.tdiv_eq_ediv_of_nonneg hyear.1, hquarter,
    hcentury]
  clear hyoe h1 h2 h3 hnonneg hquarter hcentury
  rw [i64_bind (by unfold Fits; omega), i64_bind (by unfold Fits; omega), i64_bind (by unfold Fits; omega),
    i64_bind (by unfold Fits; omega)]
  have hdoy : doe - (365 * (100 * c + 4 * q + k) + (25 * c + q) - c) = t - 365 * k := by omega
  rw [hdoy]

/-- The second half: the month and the day in a year that begins in March. -/
theorem marchDay_eq {doy y : ℤ} (hdoy : 0 ≤ doy ∧ doy ≤ 365) (hyear : -2 ^ 39 ≤ y ∧ y ≤ 2 ^ 39)
    (hleap : doy = 365 → Civil.IsLeap (y + 1)) {eras yoe : ℤ} (hy : y = yoe + eras) (heras : Fits eras) :
    ∃ d : Civil.Date, (do
      let mp := (← i64 ((← i64 (5 * doy)) + 2)).tdiv 153
      let months := (← i64 ((← i64 (153 * mp)) + 2)).tdiv 5
      let day ← i64 ((← i64 (doy - months)) + 1)
      let month ← (if mp < 10 then i64 (mp + 3) else i64 (mp - 9))
      let year ← i64 (yoe + (← i64 eras))
      let year ← (if month ≤ 2 then i64 (year + 1) else pure year)
      pure ⟨year, month, day⟩ : MayPanic Civil.Date) = .ok d ∧ d.Valid ∧ d.marchYear = y ∧
      (153 * d.marchMonth + 2) / 5 + d.day - 1 = doy := by
  obtain ⟨mp, hmp, hmp12⟩ : ∃ mp, (5 * doy + 2) / 153 = mp ∧ 0 ≤ mp ∧ mp ≤ 11 := ⟨_, rfl, by omega⟩
  obtain ⟨months, hmonths, hmonths'⟩ : ∃ months, (153 * mp + 2) / 5 = months ∧ 0 ≤ months ∧ months ≤ doy := ⟨_, rfl, by omega⟩
  have hday : doy - months + 1 ≤ 31 := by omega
  have hmonth : (if mp < 10 then i64 (mp + 3) else i64 (mp - 9)) = .ok (if mp < 10 then mp + 3 else mp - 9) := by
    split_ifs
    · exact i64_of (by unfold Fits; omega)
    · exact i64_of (by unfold Fits; omega)
  refine ⟨⟨if mp < 10 then y else y + 1, if mp < 10 then mp + 3 else mp - 9, doy - months + 1⟩, ?_, ⟨?_, ?_⟩, ?_, ?_⟩
  · rw [i64_bind (by unfold Fits; omega), i64_bind (by unfold Fits; omega), Int.tdiv_eq_ediv_of_nonneg (by omega), hmp,
      i64_bind (by unfold Fits; omega), i64_bind (by unfold Fits; omega), Int.tdiv_eq_ediv_of_nonneg (by omega), hmonths,
      i64_bind (by unfold Fits; omega), i64_bind (by unfold Fits; omega), hmonth, ok_bind, i64_bind heras, ← hy,
      i64_bind (by unfold Fits; omega)]
    by_cases hlate : mp < 10
    · rw [if_pos hlate, if_pos hlate, if_neg (by omega)]
      rfl
    · rw [if_neg hlate, if_neg hlate, if_pos (by omega), i64_of (by unfold Fits; omega)]
      rfl
  · dsimp only
    split_ifs <;> omega
  · dsimp only
    refine ⟨by omega, ?_⟩
    have hshort : ¬ Civil.IsLeap (y + 1) → doy < 365 := by
      intro hnot
      by_contra hge
      exact hnot (hleap (by omega))
    obtain ⟨hlow, hhigh⟩ := hmp12
    obtain ⟨hmonths0, -⟩ := hmonths'
    clear hmonth hy
    unfold Civil.monthLength
    subst hmonths
    by_cases hfebruary : mp = 11
    · subst hfebruary
      by_cases hlong : Civil.IsLeap (y + 1)
      · simp [hlong]
        omega
      · have hdays := hshort hlong
        simp [hlong]
        omega
    · have hhigh' : mp ≤ 10 := by omega
      clear hshort hleap
      interval_cases mp <;> simp <;> omega
  · unfold Civil.Date.marchYear
    dsimp only
    split_ifs <;> omega
  · have hmarch : Civil.Date.marchMonth ⟨if mp < 10 then y else y + 1, if mp < 10 then mp + 3 else mp - 9, doy - months + 1⟩ = mp := by
      unfold Civil.Date.marchMonth
      dsimp only
      split_ifs <;> omega
    rw [hmarch, hmonths]
    dsimp only
    omega

/-- Every day of a 64-bit count of seconds is the day of a date. -/
theorem civilFromDays_spec {n : ℤ} (hn : -2 ^ 47 ≤ n ∧ n ≤ 2 ^ 47) :
    ∃ d : Civil.Date, civilFromDays n = .ok d ∧ d.Valid ∧ d.number - 719162 = n ∧ -2 ^ 40 ≤ d.year ∧ d.year ≤ 2 ^ 40 := by
  obtain ⟨z, rfl⟩ : ∃ z, n = z - 719468 := ⟨n + 719468, by omega⟩
  have hdoe : 0 ≤ z - z / 146097 * 146097 ∧ z - z / 146097 * 146097 ≤ 146096 := by omega
  obtain ⟨c, q, t, hday⟩ := exists_eraDay hdoe
  obtain ⟨k, hk, hyoe, hdoy⟩ := hday.exists_year
  have hera : -2 ^ 30 ≤ z / 146097 ∧ z / 146097 ≤ 2 ^ 30 := by
    clear hyoe hday
    omega
  have hz : z = 146097 * (z / 146097) + (36524 * c + 1461 * q + t) := by
    have hsplit := hday.doe_eq
    omega
  rw [civilFromDays_eq (by omega) hday hk hyoe]
  obtain ⟨hc, hq, ht, -, hlast⟩ := hday
  clear hyoe hdoe
  generalize z / 146097 = era at *
  have hleap : t - 365 * k = 365 → Civil.IsLeap (100 * c + 4 * q + k + era * 400 + 1) := by
    intro hend
    unfold Civil.IsLeap
    omega
  obtain ⟨d, heval, hvalid, hyear, hrest⟩ := @marchDay_eq (t - 365 * k) (100 * c + 4 * q + k + era * 400)
    (by omega) (by omega) hleap _ _ rfl (by unfold Fits; omega)
  refine ⟨d, heval, hvalid, ?_, ?_⟩
  · have hquarter : (100 * c + 4 * q + k + era * 400) / 4 = 100 * era + 25 * c + q := by omega
    have hcentury : (100 * c + 4 * q + k + era * 400) / 100 = 4 * era + c := by omega
    have hperiod : (100 * c + 4 * q + k + era * 400) / 400 = era := by omega
    rw [Civil.Date.number_eq_march hvalid, hyear, hquarter, hcentury, hperiod]
    omega
  · unfold Civil.Date.marchYear at hyear
    split_ifs at hyear <;> omega

end HarnessConformance.Enforcement
