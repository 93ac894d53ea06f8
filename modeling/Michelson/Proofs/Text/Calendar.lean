import Mathlib.Data.Int.Order.Basic
import Michelson.Text.Timestamp

/-!
# The calendar

Days are numbered, and every number belongs to a date. The days of a year follow those of the years
before it, and the lengths of the months take the year apart. So of two days the later one has the
later year, or in the same year the later month, or in the same month the later day.

## Main definitions

* `Timestamp.yearOf`, `Timestamp.dayOfYear`: the year of a numbered day, and its number in the year

## Main results

* `Timestamp.daysBeforeYear_eq`: the days before a year, by its place in the cycles of the calendar
* `Timestamp.lt_daysBeforeYear_succ`: no day of a year comes after the year
* `Timestamp.yearOf_mono`: later days do not have earlier years
* `Timestamp.monthAndDay_lt`: later days of a year have later months, or later days of the month
-/

namespace Michelson.Timestamp

/-! ## Years -/

section Cycles

variable {era century cycle year : Int}

/-- The days before a year: an era has 400 years, a century 100, and a cycle four of them. -/
theorem daysBeforeYear_eq (hcentury : 0 ≤ century ∧ century ≤ 3) (hcycle : 0 ≤ cycle ∧ cycle ≤ 24)
    (hyear : 0 ≤ year ∧ year ≤ 3) :
    daysBeforeYear (400 * era + 100 * century + 4 * cycle + year + 1) =
      146097 * era + 36524 * century + 1461 * cycle + 365 * year := by
  have hfour : (400 * era + 100 * century + 4 * cycle + year) / 4 =
      100 * era + 25 * century + cycle := by omega
  have hhundred : (400 * era + 100 * century + 4 * cycle + year) / 100 = 4 * era + century := by
    omega
  have hera : (400 * era + 100 * century + 4 * cycle + year) / 400 = era := by omega
  simp only [daysBeforeYear, Int.add_sub_cancel, hfour, hhundred, hera]
  omega

/-- The last year of a cycle has a day more, but not in the last cycle of a century, unless that is
the last one of the era. -/
theorem daysBeforeYear_succ (hcentury : 0 ≤ century ∧ century ≤ 3)
    (hcycle : 0 ≤ cycle ∧ cycle ≤ 24) (hyear : 0 ≤ year ∧ year ≤ 3) :
    daysBeforeYear (400 * era + 100 * century + 4 * cycle + year + 1 + 1) =
      146097 * era + 36524 * century + 1461 * cycle + 365 * year + 365 +
        if year = 3 ∧ (cycle < 24 ∨ century = 3) then 1 else 0 := by
  have hfour : (400 * era + 100 * century + 4 * cycle + year + 1) / 4 =
      100 * era + 25 * century + cycle + (year + 1) / 4 := by omega
  have hhundred : (400 * era + 100 * century + 4 * cycle + year + 1) / 100 =
      4 * era + century + (4 * cycle + year + 1) / 100 := by omega
  have hera : (400 * era + 100 * century + 4 * cycle + year + 1) / 400 =
      era + (100 * century + 4 * cycle + year + 1) / 400 := by omega
  simp only [daysBeforeYear, Int.add_sub_cancel, hfour, hhundred, hera]
  split <;> omega

end Cycles

theorem daysBeforeYear_mono {y y' : Int} (h : y ≤ y') : daysBeforeYear y ≤ daysBeforeYear y' := by
  simp only [daysBeforeYear]
  omega

/-- The year of a day that is counted from the first of January 1970. -/
def yearOf (number : Int) : Int := (ofDayNumber number).year

/-- How many days of its year lie before a day. -/
def dayOfYear (number : Int) : Int :=
  number + daysBeforeYear 1970 - daysBeforeYear (yearOf number)

/-- A year is the one to which the cycles lead that are full before a day. -/
theorem exists_yearOf_eq (number : Int) :
    ∃ era century cycle year rest : Int,
      (0 ≤ century ∧ century ≤ 3) ∧ (0 ≤ cycle ∧ cycle ≤ 24) ∧ (0 ≤ year ∧ year ≤ 3) ∧
      0 ≤ rest ∧ rest < 365 + (if year = 3 ∧ (cycle < 24 ∨ century = 3) then 1 else 0) ∧
      number + daysBeforeYear 1970 =
        146097 * era + 36524 * century + 1461 * cycle + 365 * year + rest ∧
      yearOf number = 400 * era + 100 * century + 4 * cycle + year + 1 ∧
      ofDayNumber number = ⟨yearOf number,
        (monthAndDay 1 (monthLengths (yearOf number)) rest.toNat).1,
        (monthAndDay 1 (monthLengths (yearOf number)) rest.toNat).2⟩ := by
  refine ⟨_, _, _, _, _, ?_, ?_, ?_, ?_, ?_, ?_, rfl, rfl⟩
  all_goals
    generalize number + daysBeforeYear 1970 = days
  · omega
  · omega
  · omega
  · omega
  · split <;> omega
  · omega

/-- **The days of a year** begin with its first day, and are not more than 366. -/
theorem dayOfYear_bounds (number : Int) : 0 ≤ dayOfYear number ∧ dayOfYear number < 366 := by
  obtain ⟨era, century, cycle, year, rest, hcentury, hcycle, hyear, hrest, hlt, hdays, hyearOf, -⟩ :=
    exists_yearOf_eq number
  rw [dayOfYear, hdays, hyearOf, daysBeforeYear_eq hcentury hcycle hyear]
  split at hlt <;> omega

/-- **The days of a year** end where the next year begins. -/
theorem lt_daysBeforeYear_succ (number : Int) :
    number + daysBeforeYear 1970 < daysBeforeYear (yearOf number + 1) := by
  obtain ⟨era, century, cycle, year, rest, hcentury, hcycle, hyear, hrest, hlt, hdays, hyearOf, -⟩ :=
    exists_yearOf_eq number
  rw [hdays, hyearOf, daysBeforeYear_succ hcentury hcycle hyear]
  omega

/-- The date of a day is its year, and the month and the day that its number in the year tells. -/
theorem ofDayNumber_eq (number : Int) :
    ofDayNumber number = ⟨yearOf number,
      (monthAndDay 1 (monthLengths (yearOf number)) (dayOfYear number).toNat).1,
      (monthAndDay 1 (monthLengths (yearOf number)) (dayOfYear number).toNat).2⟩ := by
  obtain ⟨era, century, cycle, year, rest, hcentury, hcycle, hyear, -, -, hdays, hyearOf, hdate⟩ :=
    exists_yearOf_eq number
  have hrest : dayOfYear number = rest := by
    rw [dayOfYear, hdays, hyearOf, daysBeforeYear_eq hcentury hcycle hyear]
    omega
  rw [hrest]
  exact hdate

/-- **Later days do not have earlier years.** -/
theorem yearOf_mono {m n : Int} (h : m ≤ n) : yearOf m ≤ yearOf n := by
  refine Int.not_lt.mp fun hlt => ?_
  have hyears := daysBeforeYear_mono (show yearOf n + 1 ≤ yearOf m by omega)
  have hend := lt_daysBeforeYear_succ n
  have hstart := (dayOfYear_bounds m).1
  rw [dayOfYear] at hstart
  omega

/-! ## Months and days -/

/-- The month is that of the first length, or a later one. -/
theorem le_monthAndDay (month : Nat) (lengths : List Nat) (day : Nat) :
    month ≤ (monthAndDay month lengths day).1 := by
  induction lengths generalizing month day with
  | nil => exact Nat.le_refl _
  | cons length lengths ih =>
    rw [monthAndDay]
    split
    · exact Nat.le_refl _
    · exact Nat.le_of_succ_le (ih (month + 1) _)

/-- **Of two days of a year** the later one has the later month, or is the later day of a month. -/
theorem monthAndDay_lt (month : Nat) (lengths : List Nat) {day day' : Nat} (h : day < day') :
    (monthAndDay month lengths day).1 < (monthAndDay month lengths day').1 ∨
      (monthAndDay month lengths day).1 = (monthAndDay month lengths day').1 ∧
        (monthAndDay month lengths day).2 < (monthAndDay month lengths day').2 := by
  induction lengths generalizing month day day' with
  | nil => exact .inr ⟨rfl, Nat.succ_lt_succ h⟩
  | cons length lengths ih =>
    rw [monthAndDay, monthAndDay]
    split
    · split
      · exact .inr ⟨rfl, Nat.succ_lt_succ h⟩
      · exact .inl (le_monthAndDay (month + 1) lengths _)
    · rw [if_neg (by omega)]
      exact ih (month + 1) (by omega)

theorem monthAndDay_le (month : Nat) (lengths : List Nat) {day bound : Nat}
    (hlengths : ∀ length ∈ lengths, length ≤ bound)
    (hday : day < lengths.foldr (· + ·) bound) :
    (monthAndDay month lengths day).1 ≤ month + lengths.length ∧
      (monthAndDay month lengths day).2 ≤ bound := by
  induction lengths generalizing month day with
  | nil => exact ⟨Nat.le_refl _, hday⟩
  | cons length lengths ih =>
    rw [List.forall_mem_cons] at hlengths
    rw [List.foldr_cons] at hday
    rw [monthAndDay, List.length_cons]
    split
    next hlt => exact ⟨Nat.le_add_right _ _, Nat.le_trans hlt hlengths.1⟩
    · have hrest := ih (month + 1) hlengths.2 (show day - length < _ by omega)
      exact ⟨by omega, hrest.2⟩

/-- Months and days have two digits at most. -/
theorem monthAndDay_lt_hundred (year : Int) {day : Nat} (h : day < 366) :
    (monthAndDay 1 (monthLengths year) day).1 < 100 ∧
      (monthAndDay 1 (monthLengths year) day).2 < 100 := by
  have hbounds : (∀ length ∈ monthLengths year, length ≤ 31) ∧
      366 ≤ (monthLengths year).foldr (· + ·) 31 := by
    unfold monthLengths
    cases isLeapYear year <;> decide
  obtain ⟨hmonth, hday⟩ :=
    monthAndDay_le 1 (monthLengths year) hbounds.1 (Nat.lt_of_lt_of_le h hbounds.2)
  have hlength : (monthLengths year).length = 12 := rfl
  exact ⟨by omega, by omega⟩

/-- **Days are ordered as their dates are.** -/
theorem compare_ofDayNumber (m n : Int) :
    compare m n = (compare (yearOf m) (yearOf n)).then
      ((compare (ofDayNumber m).month (ofDayNumber n).month).then
        (compare (ofDayNumber m).day (ofDayNumber n).day)) := by
  have hlt {m n : Int} (h : m < n) : (compare (yearOf m) (yearOf n)).then
      ((compare (ofDayNumber m).month (ofDayNumber n).month).then
        (compare (ofDayNumber m).day (ofDayNumber n).day)) = .lt := by
    rcases lt_or_eq_of_le (yearOf_mono (Int.le_of_lt h)) with hyear | hyear
    · rw [compare_lt_iff_lt.mpr hyear]
      rfl
    · have hday : (dayOfYear m).toNat < (dayOfYear n).toNat := by
        have hstart := (dayOfYear_bounds m).1
        rw [dayOfYear, hyear] at *
        unfold dayOfYear
        omega
      rw [hyear, Std.ReflOrd.compare_self, Ordering.eq_then, ofDayNumber_eq m, ofDayNumber_eq n,
        hyear]
      rcases monthAndDay_lt 1 (monthLengths (yearOf n)) hday with hmonth | ⟨hmonth, hday⟩
      · rw [Nat.compare_eq_lt.mpr hmonth]
        rfl
      · rw [hmonth, Std.ReflOrd.compare_self, Ordering.eq_then, Nat.compare_eq_lt.mpr hday]
  rcases lt_trichotomy m n with h | rfl | h
  · rw [hlt h, compare_lt_iff_lt.mpr h]
  · simp only [Std.ReflOrd.compare_self, Ordering.eq_then]
  · have hswap := congrArg Ordering.swap (hlt h)
    rw [Ordering.swap_then, Ordering.swap_then, ← Std.OrientedOrd.eq_swap,
      ← Std.OrientedOrd.eq_swap, ← Std.OrientedOrd.eq_swap] at hswap
    rw [hswap, compare_gt_iff_gt.mpr h]
    rfl

end Michelson.Timestamp
