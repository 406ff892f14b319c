import Mathlib

/-! # The proleptic Gregorian calendar

Dates of all integer years, their numbers of days since `0001-01-01`, and the order that both have in
common. A date is determined by its number. -/

namespace HarnessConformance.Lib.Civil
set_option autoImplicit false

def IsLeap (year : ℤ) : Prop := year % 4 = 0 ∧ (year % 100 ≠ 0 ∨ year % 400 = 0)

instance (year : ℤ) : Decidable (IsLeap year) := inferInstanceAs (Decidable (_ ∧ _))

def monthLength (year month : ℤ) : ℤ :=
  if month = 2 then (if IsLeap year then 29 else 28)
  else if month = 4 ∨ month = 6 ∨ month = 9 ∨ month = 11 then 30 else 31

def yearLength (year : ℤ) : ℤ := if IsLeap year then 366 else 365

/-- Days before the year. -/
def yearStart (year : ℤ) : ℤ := 365 * (year - 1) + (year - 1) / 4 - (year - 1) / 100 + (year - 1) / 400

/-- Days of the year before a month, given by the number of months that have passed. -/
def monthStart (year : ℤ) (months : ℕ) : ℤ := ((List.range months).map fun m : ℕ => monthLength year (m + 1)).sum

structure Date where
  year : ℤ
  month : ℤ
  day : ℤ
  deriving DecidableEq

namespace Date

structure Valid (d : Date) : Prop where
  month : 1 ≤ d.month ∧ d.month ≤ 12
  day : 1 ≤ d.day ∧ d.day ≤ monthLength d.year d.month

/-- Days since `0001-01-01`. -/
def number (d : Date) : ℤ := yearStart d.year + monthStart d.year (d.month - 1).toNat + (d.day - 1)

/-- The order of dates: by year, by month, by day. -/
def Before (d e : Date) : Prop :=
  d.year < e.year ∨ d.year = e.year ∧ (d.month < e.month ∨ d.month = e.month ∧ d.day < e.day)

end Date

/-! ## Years -/

theorem yearStart_succ (year : ℤ) : yearStart (year + 1) = yearStart year + yearLength year := by
  unfold yearStart yearLength IsLeap
  split_ifs <;> omega

theorem yearLength_pos (year : ℤ) : 0 < yearLength year := by
  unfold yearLength
  split_ifs <;> decide

theorem yearStart_mono {y z : ℤ} (h : y ≤ z) : yearStart y ≤ yearStart z := by
  obtain ⟨n, rfl⟩ := Int.le.dest h
  induction n with
  | zero => rw [Int.natCast_zero, Int.add_zero]
  | succ n ih =>
    have hstep := yearStart_succ (y + n)
    have hpos := yearLength_pos (y + n)
    have hprefix := ih (by omega)
    rw [Int.natCast_succ, ← Int.add_assoc]
    omega

/-! ## Months -/

theorem monthLength_pos (year month : ℤ) : 0 < monthLength year month := by
  unfold monthLength
  split_ifs <;> decide

theorem monthStart_succ (year : ℤ) (months : ℕ) :
    monthStart year (months + 1) = monthStart year months + monthLength year (months + 1) := by
  simp [monthStart, List.range_succ]

theorem monthStart_mono (year : ℤ) {m n : ℕ} (h : m ≤ n) : monthStart year m ≤ monthStart year n := by
  induction n, h using Nat.le_induction with
  | base => exact Int.le_refl _
  | succ n _ ih =>
    have hpos := monthLength_pos year (n + 1)
    rw [monthStart_succ]
    omega

theorem monthStart_twelve (year : ℤ) : monthStart year 12 = yearLength year := by
  have hsum : monthStart year 12 = 31 + ((if IsLeap year then 29 else 28) + 306) := by
    simp [monthStart, List.range_succ, monthLength]
  rw [hsum, yearLength]
  split_ifs <;> rfl

/-! ## Order -/

namespace Date
variable {d e : Date}

/-- A day lies in its month. -/
theorem Valid.lt_month (h : d.Valid) : d.number < yearStart d.year + monthStart d.year d.month.toNat := by
  obtain ⟨⟨hlow, -⟩, -, hday⟩ := h
  have hmonth : d.month.toNat = (d.month - 1).toNat + 1 := by omega
  have hcast : (((d.month - 1).toNat : ℤ) + 1) = d.month := by omega
  rw [hmonth, monthStart_succ, hcast, number]
  omega

theorem Valid.lt_year (h : d.Valid) : d.number < yearStart (d.year + 1) := by
  have hmonth := h.lt_month
  have hmono := monthStart_mono d.year (by have h12 := h.month.2; omega : d.month.toNat ≤ 12)
  rw [monthStart_twelve] at hmono
  rw [yearStart_succ]
  omega

theorem yearStart_le_number (h : e.Valid) : yearStart e.year ≤ e.number := by
  have hmono := monthStart_mono e.year (Nat.zero_le (e.month - 1).toNat)
  have hzero : monthStart e.year 0 = 0 := rfl
  have hday := h.day.1
  rw [number]
  omega

/-- Earlier dates have smaller numbers. -/
theorem number_lt (hd : d.Valid) (he : e.Valid) (h : d.Before e) : d.number < e.number := by
  rcases h with hyear | ⟨hyear, hmonth | ⟨hmonth, hday⟩⟩
  · have hlt := hd.lt_year
    have hle := yearStart_mono (Int.add_one_le_of_lt hyear)
    have hfirst := yearStart_le_number he
    omega
  · have hlt := hd.lt_month
    have hmono := monthStart_mono d.year (by have h1 := hd.month.1; omega : d.month.toNat ≤ (e.month - 1).toNat)
    have hday := he.day.1
    rw [hyear] at hlt hmono
    rw [number.eq_def e]
    omega
  · rw [number, number, hyear, hmonth]
    omega

theorem before_or (d e : Date) : d.Before e ∨ d = e ∨ e.Before d := by
  obtain ⟨y, m, a⟩ := d
  obtain ⟨z, n, b⟩ := e
  simp only [Before, Date.mk.injEq]
  omega

/-- A date is determined by its number. -/
theorem number_injective (hd : d.Valid) (he : e.Valid) (h : d.number = e.number) : d = e := by
  rcases before_or d e with hlt | heq | hgt
  · have hnumber := number_lt hd he hlt
    omega
  · exact heq
  · have hnumber := number_lt he hd hgt
    omega

end Date

/-! ## Years that begin in March -/

/-- The year a date belongs to when years begin in March. -/
def Date.marchYear (d : Date) : ℤ := if d.month ≤ 2 then d.year - 1 else d.year

/-- The months since March. -/
def Date.marchMonth (d : Date) : ℤ := (d.month + 9) % 12

/-- Counted from March, the days before a month are a line rounded down, and the leap day is the last of its year. -/
theorem Date.number_eq_march {d : Date} (h : d.Valid) : d.number =
    365 * d.marchYear + d.marchYear / 4 - d.marchYear / 100 + d.marchYear / 400 + (153 * d.marchMonth + 2) / 5 + d.day - 307 := by
  obtain ⟨year, month, day⟩ := d
  obtain ⟨⟨hlow, hhigh⟩, -⟩ := h
  dsimp only at hlow hhigh
  unfold number marchYear marchMonth
  dsimp only
  interval_cases month <;> simp [monthStart, List.range_succ, monthLength, yearStart, IsLeap] <;> omega

end HarnessConformance.Lib.Civil
