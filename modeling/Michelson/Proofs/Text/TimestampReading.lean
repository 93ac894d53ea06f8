import Mathlib.Data.List.Fold
import Michelson.Proofs.Text.TimestampOrder
import Michelson.Text.Numeral

/-!
# Timestamps read back from their texts

The number of a day is read back from its date, so the moment is read back from its text as long as
its year has four digits and no sign. All other years are written with a sign in front, and no text
that begins with a sign is read as a timestamp.

## Main definitions

* `Timestamp.HasFourDigitYear`: the moments of the years from 0 to 9999
* `Timestamp.Spells`: texts that are read as a number

## Main results

* `Timestamp.dayNumber_ofDayNumber`: the date of a day is that of no other day
* `Timestamp.isValid_ofDayNumber`: it is a date of the calendar
* `Timestamp.read?_of_render?`: the moments that are read back from their texts
-/

namespace Michelson.Timestamp

/-! ## Days and dates -/

/-- A year has 365 days, or one more. -/
theorem daysBeforeYear_add_one (year : Int) :
    daysBeforeYear (year + 1) =
      daysBeforeYear year + (365 + if isLeapYear year then 1 else 0 : Nat) := by
  simp only [daysBeforeYear, isLeapYear, Bool.and_eq_true, Bool.or_eq_true, decide_eq_true_eq]
  split <;> omega

/-- The months of a year take up all its days. -/
theorem foldr_monthLengths (year : Int) :
    (monthLengths year).foldr (· + ·) 0 = 365 + if isLeapYear year then 1 else 0 := by
  unfold monthLengths
  cases isLeapYear year <;> rfl

/-- **The month and the day** that a number in the year tells: so many days lie before the month,
and the month has the day. -/
theorem monthAndDay_eq (month : Nat) (lengths : List Nat) {day : Nat}
    (h : day < lengths.foldr (· + ·) 0) :
    ∃ k d, monthAndDay month lengths day = (month + k, d + 1) ∧ d < lengths.getD k 0 ∧
      day = (lengths.take k).foldr (· + ·) 0 + d := by
  induction lengths generalizing month day with
  | nil => exact absurd h (Nat.not_lt_zero day)
  | cons length lengths ih =>
    rw [monthAndDay]
    split
    next hlt => exact ⟨0, day, rfl, hlt, (Nat.zero_add day).symm⟩
    next hge =>
      rw [List.foldr_cons] at h
      have hrest : day - length < lengths.foldr (· + ·) 0 := by omega
      obtain ⟨k, d, heq, hd, hday⟩ := ih (month + 1) hrest
      refine ⟨k + 1, d, by rw [heq]; congr 1; omega, hd, ?_⟩
      rw [List.take_succ_cons, List.foldr_cons]
      omega

/-- **The date of a day**: its month has so many days before it, and the day in it. -/
theorem exists_ofDayNumber_eq (number : Int) :
    ∃ k d, ofDayNumber number = ⟨yearOf number, k + 1, d + 1⟩ ∧
      d < (monthLengths (yearOf number)).getD k 0 ∧
      dayOfYear number = daysBeforeMonth (yearOf number) (k + 1) + d := by
  have hend := lt_daysBeforeYear_succ number
  have hstart := (dayOfYear_bounds number).1
  rw [daysBeforeYear_add_one] at hend
  have hlt : (dayOfYear number).toNat < (monthLengths (yearOf number)).foldr (· + ·) 0 := by
    rw [foldr_monthLengths]
    unfold dayOfYear
    omega
  obtain ⟨k, d, heq, hd, hday⟩ := monthAndDay_eq 1 (monthLengths (yearOf number)) hlt
  refine ⟨k, d, by rw [ofDayNumber_eq, heq, Nat.add_comm], hd, ?_⟩
  rw [daysBeforeMonth, Nat.add_sub_cancel, List.foldl_eq_foldr]
  omega

/-- **The number of a day** is read back from its date. -/
theorem dayNumber_ofDayNumber (number : Int) : dayNumber (ofDayNumber number) = number := by
  obtain ⟨k, d, heq, -, hday⟩ := exists_ofDayNumber_eq number
  rw [heq]
  unfold dayOfYear at hday
  simp only [dayNumber, Nat.add_sub_cancel]
  omega

/-- **The date of a day** is one of the calendar. -/
theorem isValid_ofDayNumber (number : Int) : (ofDayNumber number).isValid = true := by
  obtain ⟨k, d, heq, hd, -⟩ := exists_ofDayNumber_eq number
  rw [heq]
  simp only [Date.isValid, Bool.and_eq_true, decide_eq_true_eq, Nat.add_sub_cancel]
  omega

/-- A day lies in a year or after it if it is no earlier than the year. -/
theorem le_yearOf_iff (year number : Int) :
    year ≤ yearOf number ↔ daysBeforeYear year ≤ number + daysBeforeYear 1970 := by
  have hstart := (dayOfYear_bounds number).1
  have hend := lt_daysBeforeYear_succ number
  rw [dayOfYear] at hstart
  constructor
  · intro h
    have hmono := daysBeforeYear_mono h
    omega
  · intro h
    refine Int.not_lt.mp fun hlt => ?_
    have hmono := daysBeforeYear_mono (show yearOf number + 1 ≤ year by omega)
    omega

/-! ## Moments of years with four digits -/

/-- **The moments of the years from 0 to 9999**, in seconds. -/
def HasFourDigitYear (seconds : Int) : Prop := -62167219200 ≤ seconds ∧ seconds < 253402300800

instance (seconds : Int) : Decidable (HasFourDigitYear seconds) :=
  inferInstanceAs (Decidable (_ ∧ _))

theorem hasFourDigitYear_iff (seconds : Int) :
    HasFourDigitYear seconds ↔
      0 ≤ yearOf (seconds / 86400) ∧ yearOf (seconds / 86400) ≤ 9999 := by
  have hfirst := le_yearOf_iff 0 (seconds / 86400)
  have hlast := le_yearOf_iff 10000 (seconds / 86400)
  have hzero : daysBeforeYear 0 = -366 := by decide
  have hepoch : daysBeforeYear 1970 = 719162 := by decide
  have hend : daysBeforeYear 10000 = 3652059 := by decide
  rw [hzero, hepoch] at hfirst
  rw [hend, hepoch] at hlast
  unfold HasFourDigitYear
  omega

/-! ## Texts -/

/-- Digits at the front of a text spell their number. -/
theorem digits?_append {cs : List Char} (h : ∀ c ∈ cs, c.isDigit = true) (value : Nat)
    (rest : List Char) :
    digits? cs.length value (cs ++ rest) = some (Nat.ofDigitChars 10 cs value, rest) := by
  induction cs generalizing value with
  | nil => rfl
  | cons c cs ih =>
    rw [List.forall_mem_cons] at h
    rw [List.length_cons, List.cons_append, digits?, if_pos h.1, Nat.ofDigitChars_cons]
    exact ih h.2 _

/-- Whether a text in front of any other one is read as a number of so many digits. -/
def Spells (width : Nat) (digits : List Char) (n : Nat) : Prop :=
  ∀ rest, digits? width 0 (digits ++ rest) = some (n, rest)

/-- A number is read back from its digits. -/
theorem spells_padded {width n : Nat} (hwidth : 0 < width) (hn : n < 10 ^ width) :
    Spells width (padded width n).toList n := by
  intro rest
  have hread := digits?_append (@isDigit_of_mem_padded width n) 0 rest
  rwa [length_padded hwidth hn, ofDigitChars_padded] at hread

/-- A text that begins with no digit is not read as a timestamp. -/
theorem read?_of_not_isDigit {text : String} {c : Char} {cs : List Char}
    (htext : text.toList = c :: cs) (hc : c.isDigit = false) : read? text = none := by
  rw [read?, htext, digits?, hc]
  rfl

/-- A text is read number by number, each up to the mark behind it. -/
theorem read?_of_spells {text : String} {year month day hour minute second : Nat}
    {ys ms ds hs ns ss : List Char} (hyear : Spells 4 ys year) (hmonth : Spells 2 ms month)
    (hday : Spells 2 ds day) (hhour : Spells 2 hs hour) (hminute : Spells 2 ns minute)
    (hsecond : Spells 2 ss second)
    (htext : text.toList =
      ys ++ '-' :: (ms ++ '-' :: (ds ++ 'T' :: (hs ++ ':' :: (ns ++ ':' :: (ss ++ ['Z'])))))) :
    read? text =
      if (⟨year, month, day⟩ : Date).isValid && hour < 24 && minute < 60 && second ≤ 60 then
        some (86400 * dayNumber ⟨year, month, day⟩ + 3600 * hour + 60 * minute + min second 59 - 0)
      else none := by
  rw [read?, htext, hyear]
  change (digits? 2 0 (ms ++ _) >>= _) = _
  rw [hmonth]
  change (digits? 2 0 (ds ++ _) >>= _) = _
  rw [hday]
  change (digits? 2 0 (hs ++ _) >>= _) = _
  rw [hhour]
  change (digits? 2 0 (ns ++ _) >>= _) = _
  rw [hminute]
  change (digits? 2 0 (ss ++ _) >>= _) = _
  rw [hsecond]
  rfl

section Rendered

variable {seconds : Int} {text : String}

/-- **Years with four digits are read back**, and what stands behind them. -/
theorem read?_of_hasFourDigitYear (h : render? seconds = some text)
    (hyear : HasFourDigitYear seconds) : read? text = some seconds := by
  rw [hasFourDigitYear_iff] at hyear
  have hyearText : yearText (yearOf (seconds / 86400)) =
      padded 4 (yearOf (seconds / 86400)).natAbs := by
    rw [yearText, if_neg (by omega), if_pos hyear.2]
  have hdays : (ofDayNumber (seconds / 86400)).month < 100 ∧
      (ofDayNumber (seconds / 86400)).day < 100 := by
    have hday := dayOfYear_bounds (seconds / 86400)
    rw [ofDayNumber_eq]
    exact monthAndDay_lt_hundred _ (by omega)
  have htext := toList_render h
  rw [hyearText, afterYear] at htext
  have htwo {n : Nat} (hn : n < 100) : Spells 2 (padded 2 n).toList n :=
    spells_padded (by decide) hn
  rw [read?_of_spells (spells_padded (by decide) (by omega)) (htwo hdays.1) (htwo hdays.2)
    (htwo (by omega)) (htwo (by omega)) (htwo (by omega)) htext]
  have hdate : (⟨((yearOf (seconds / 86400)).natAbs : Int), (ofDayNumber (seconds / 86400)).month,
      (ofDayNumber (seconds / 86400)).day⟩ : Date) = ofDayNumber (seconds / 86400) := by
    rw [Int.natAbs_of_nonneg hyear.1]
    rfl
  rw [hdate, isValid_ofDayNumber, dayNumber_ofDayNumber, if_pos]
  · exact congrArg some (by omega)
  · simp only [Bool.true_and, Bool.and_eq_true, decide_eq_true_eq]
    omega

/-- All other years are written with a sign in front. -/
theorem exists_sign_of_not_hasFourDigitYear (h : render? seconds = some text)
    (hyear : ¬ HasFourDigitYear seconds) :
    ∃ c cs, text.toList = c :: cs ∧ (c = '-' ∨ c = '+') := by
  rw [hasFourDigitYear_iff] at hyear
  have htext := toList_render h
  unfold yearText at htext
  split at htext
  · rw [String.toList_append] at htext
    exact ⟨'-', _, htext, .inl rfl⟩
  · rw [if_neg (by omega), String.toList_append] at htext
    exact ⟨'+', _, htext, .inr rfl⟩

/-- **The moments that are read back** from their texts are those of the years from 0 to 9999. -/
theorem read?_of_render? (h : render? seconds = some text) :
    read? text = if HasFourDigitYear seconds then some seconds else none := by
  split
  next hyear => exact read?_of_hasFourDigitYear h hyear
  next hyear =>
    obtain ⟨c, cs, htext, rfl | rfl⟩ := exists_sign_of_not_hasFourDigitYear h hyear
    · exact read?_of_not_isDigit htext rfl
    · exact read?_of_not_isDigit htext rfl

end Rendered

/-! ## Integers -/

theorem isSuffix_of_digits? {count value n : Nat} {cs rest : List Char}
    (h : digits? count value cs = some (n, rest)) : rest <:+ cs := by
  induction count generalizing value cs with
  | zero =>
    cases h
    exact List.suffix_rfl
  | succ count ih =>
    cases cs with
    | nil => cases h
    | cons c cs =>
      rw [digits?, Option.ite_none_right_eq_some] at h
      exact (ih h.2).trans (List.suffix_cons c cs)

/-- A timestamp has a dash that is not in front. -/
theorem dash_mem_of_read? {text : String} {seconds : Int} (h : read? text = some seconds) :
    '-' ∈ text.toList.tail := by
  obtain ⟨⟨year, rest⟩, hyear, h⟩ := Option.bind_eq_some_iff.mp h
  obtain ⟨more, hdash, -⟩ := Option.bind_eq_some_iff.mp h
  cases htext : text.toList with
  | nil =>
    rw [htext] at hyear
    cases hyear
  | cons c cs =>
    rw [htext, digits?, Option.ite_none_right_eq_some] at hyear
    cases rest with
    | nil => cases hdash
    | cons d ds =>
      rw [after?, Option.ite_none_right_eq_some, beq_iff_eq] at hdash
      exact (isSuffix_of_digits? hyear.2).subset (hdash.1 ▸ List.mem_cons_self)

/-- So has the text of any moment. -/
theorem dash_mem_of_render? {seconds : Int} {text : String} (h : render? seconds = some text) :
    '-' ∈ text.toList.tail := by
  obtain ⟨c, cs, hyear, -⟩ := exists_toList_yearText (yearOf (seconds / 86400))
  rw [toList_render h, hyear, List.cons_append, List.tail_cons]
  exact List.mem_append_right cs List.mem_cons_self

theorem isDigit_of_readDigits? {value n : Nat} {cs : List Char}
    (h : Text.readDigits? value cs = some n) : ∀ c ∈ cs, c.isDigit = true := by
  induction cs generalizing value with
  | nil => simp
  | cons c cs ih =>
    rw [Text.readDigits?] at h
    split at h
    next digit hdigit =>
      rw [Text.digitValue?, Option.ite_none_right_eq_some] at hdigit
      exact List.forall_mem_cons.mpr ⟨hdigit.1, ih h⟩
    next => cases h

theorem dash_notMem_of_readGrouped? {cs : List Char} {n : Nat}
    (h : Text.readGrouped? cs = some n) : '-' ∉ cs := by
  intro hmem
  cases cs with
  | nil => cases hmem
  | cons c cs =>
    rw [Text.readGrouped?, Option.ite_none_left_eq_some] at h
    have hleft : '-' ∈ (c :: cs).filter (· ≠ '_') := List.mem_filter.mpr ⟨hmem, by decide⟩
    obtain ⟨-, h⟩ := h
    unfold Text.readNatural? at h
    split at h
    next => cases h
    next => exact absurd (isDigit_of_readDigits? h _ hleft) (by decide)

/-- An integer has a dash nowhere but in front. -/
theorem dash_notMem_of_readInteger? {text : String} {n : Int}
    (h : Text.readInteger? text = some n) : '-' ∉ text.toList.tail := by
  have hgrouped {cs : List Char} {m : Int} {sign : Int → Int}
      (hm : Option.map sign (do let k ← Text.readGrouped? cs; pure (k : Int)) = some m) :
      '-' ∉ cs := by
    obtain ⟨_, hvalue, -⟩ := Option.map_eq_some_iff.mp hm
    obtain ⟨k, hk, -⟩ := Option.bind_eq_some_iff.mp hvalue
    exact dash_notMem_of_readGrouped? hk
  unfold Text.readInteger? at h
  split at h
  next htext =>
    rw [htext]
    exact hgrouped h
  next htext =>
    rw [htext]
    exact hgrouped h
  next => exact fun hmem => hgrouped h (List.mem_of_mem_tail hmem)

/-- **No text is both a timestamp and an integer.** -/
theorem read?_of_readInteger? {text : String} {n : Int} (h : Text.readInteger? text = some n) :
    read? text = none :=
  Option.eq_none_iff_forall_ne_some.mpr fun _ hread =>
    dash_notMem_of_readInteger? h (dash_mem_of_read? hread)

/-- The text of a moment is no integer. -/
theorem readInteger?_of_render? {seconds : Int} {text : String} (h : render? seconds = some text) :
    Text.readInteger? text = none :=
  Option.eq_none_iff_forall_ne_some.mpr fun _ hread =>
    dash_notMem_of_readInteger? hread (dash_mem_of_render? h)

end Michelson.Timestamp
