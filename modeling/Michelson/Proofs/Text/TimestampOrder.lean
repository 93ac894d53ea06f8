import Mathlib.Data.Char
import Michelson.Proofs.Order.Lexicographic
import Michelson.Proofs.Text.Calendar

/-!
# The order of timestamps as texts

The text of a moment begins with its year, and all that follows has a fixed number of digits. So
moments of one year are ordered alike as texts and as numbers, and moments of two years as the
texts of the years. These are ordered as the years are if both have four digits and no sign;
otherwise a sign comes before every digit, and more digits are no greater number.

## Main results

* `Timestamp.compare_padded`: numbers with as many digits
* `Timestamp.compare_yearText`: the texts of years
* `Timestamp.compare_afterYear`, `Timestamp.compare_render`: two moments, and their texts
-/

namespace Michelson

/-- A mark behind that comes before every item in front of it ends what is in front. -/
theorem compare_append_cons_of_lt {α : Type} [LinearOrder α] {mark : α} {xs xs' : List α}
    (h : ∀ x ∈ xs, mark < x) (h' : ∀ x ∈ xs', mark < x) (ys ys' : List α) :
    compare (xs ++ mark :: ys) (xs' ++ mark :: ys') = (compare xs xs').then (compare ys ys') := by
  induction xs generalizing xs' with
  | nil =>
    cases xs' with
    | nil =>
      rw [List.nil_append, List.nil_append, List.compare_cons_cons, compare_eq_iff_eq.mpr rfl]
      rfl
    | cons x' xs' =>
      rw [List.nil_append, List.cons_append, List.compare_cons_cons,
        compare_lt_iff_lt.mpr (h' x' (.head _))]
      rfl
  | cons x xs ih =>
    cases xs' with
    | nil =>
      rw [List.nil_append, List.cons_append, List.compare_cons_cons,
        compare_gt_iff_gt.mpr (h x (.head _))]
      rfl
    | cons x' xs' =>
      rw [List.forall_mem_cons] at h h'
      rw [List.cons_append, List.cons_append, List.compare_cons_cons, List.compare_cons_cons,
        ih h.2 h'.2, Ordering.then_assoc]

namespace Timestamp

/-! ## Digits -/

theorem toNat_of_isDigit {c : Char} (h : c.isDigit = true) : 48 ≤ c.toNat ∧ c.toNat ≤ 57 := by
  simp only [Char.isDigit, Bool.and_eq_true, decide_eq_true_eq, UInt32.le_iff_toNat_le] at h
  exact h

/-- Digits are ordered as their values are. -/
theorem compare_digit {c d : Char} (hc : c.isDigit = true) (hd : d.isDigit = true) :
    compare (c.toNat - '0'.toNat) (d.toNat - '0'.toNat) = compare c d := by
  have hlt : c < d ↔ c.toNat < d.toNat := Iff.rfl
  have heq : c = d ↔ c.toNat = d.toNat := Char.toNat_inj.symm
  have hzero : '0'.toNat = 48 := rfl
  replace hc := toNat_of_isDigit hc
  replace hd := toNat_of_isDigit hd
  refine compareOfLessAndEq_congr ?_ ?_
  · rw [hlt]
    omega
  · rw [heq]
    omega

/-- Digits spell the number of their values. -/
theorem ofDigitChars_eq_number (cs : List Char) :
    Nat.ofDigitChars 10 cs 0 = Text.Base58.number 10 (cs.map (·.toNat - '0'.toNat)) := by
  rw [Nat.ofDigitChars, Text.Base58.number, List.foldl_map]

theorem toList_padded (width n : Nat) : (padded width n).toList =
    List.replicate (width - (Nat.toDigits 10 n).length) '0' ++ Nat.toDigits 10 n := by
  rw [padded, String.toList_ofList]

theorem isDigit_of_mem_padded {width n : Nat} :
    ∀ c ∈ (padded width n).toList, c.isDigit = true := by
  intro c hc
  rw [toList_padded, List.mem_append] at hc
  rcases hc with hc | hc
  · rw [List.eq_of_mem_replicate hc]
    rfl
  · exact Nat.isDigit_of_mem_toDigits (by decide) (by decide) hc

theorem ofDigitChars_padded (width n : Nat) :
    Nat.ofDigitChars 10 (padded width n).toList 0 = n := by
  rw [toList_padded, Nat.ofDigitChars_append, Nat.ofDigitChars_replicate_zero, Nat.mul_zero,
    Nat.ofDigitChars_ten_toDigits]

theorem length_padded {width n : Nat} (hwidth : 0 < width) (hn : n < 10 ^ width) :
    (padded width n).toList.length = width := by
  have hle := (Nat.length_toDigits_le_iff (by decide) hwidth).mpr hn
  rw [toList_padded, List.length_append, List.length_replicate]
  omega

/-- **Numbers with as many digits** are ordered as the texts of these digits. -/
theorem compare_padded {width m n : Nat} (hwidth : 0 < width) (hm : m < 10 ^ width)
    (hn : n < 10 ^ width) :
    compare (padded width m).toList (padded width n).toList = compare m n := by
  have hvalues (n : Nat) : ∀ d ∈ (padded width n).toList.map (·.toNat - '0'.toNat), d < 10 := by
    simp only [List.mem_map]
    rintro _ ⟨c, hc, rfl⟩
    have hdigit := toNat_of_isDigit (isDigit_of_mem_padded c hc)
    have hzero : '0'.toNat = 48 := rfl
    omega
  have hlength : ((padded width m).toList.map (·.toNat - '0'.toNat)).length =
      ((padded width n).toList.map (·.toNat - '0'.toNat)).length := by
    rw [List.length_map, List.length_map, length_padded hwidth hm, length_padded hwidth hn]
  calc compare (padded width m).toList (padded width n).toList
      = compare ((padded width m).toList.map (·.toNat - '0'.toNat))
          ((padded width n).toList.map (·.toNat - '0'.toNat)) :=
        (compare_map fun c hc d hd => compare_digit (isDigit_of_mem_padded c hc)
          (isDigit_of_mem_padded d hd)).symm
    _ = compare (Nat.ofDigitChars 10 (padded width m).toList 0)
          (Nat.ofDigitChars 10 (padded width n).toList 0) := by
        rw [ofDigitChars_eq_number, ofDigitChars_eq_number,
          Text.Base58.compare_number hlength (hvalues m) (hvalues n)]
    _ = compare m n := by rw [ofDigitChars_padded, ofDigitChars_padded]

/-! ## Years -/

theorem lt_of_isDigit {c : Char} (h : c.isDigit = true) : '-' < c := by
  have hdigit := toNat_of_isDigit h
  have hmark : '-'.toNat = 45 := rfl
  exact Nat.lt_of_lt_of_le (by omega : '-'.toNat < 48) hdigit.1

/-- The text of a year is a character with nothing but digits behind it. -/
theorem exists_toList_yearText (year : Int) :
    ∃ c cs, (yearText year).toList = c :: cs ∧ ∀ d ∈ cs, d.isDigit = true := by
  have hdigits := @isDigit_of_mem_padded 4 year.natAbs
  unfold yearText
  split
  · exact ⟨'-', _, String.toList_append, hdigits⟩
  · split
    · cases hpadded : (padded 4 year.natAbs).toList with
      | nil =>
        have hne := Nat.toDigits_ne_nil (n := year.natAbs) (b := 10)
        rw [toList_padded, List.append_eq_nil_iff] at hpadded
        exact absurd hpadded.2 hne
      | cons c cs =>
        rw [hpadded] at hdigits
        exact ⟨c, cs, rfl, fun d hd => hdigits d (.tail _ hd)⟩
    · exact ⟨'+', _, String.toList_append, hdigits⟩

/-- The texts of two years differ: by their digits or by the sign. -/
theorem yearText_injective {y y' : Int} (h : yearText y = yearText y') : y = y' := by
  have hdigits (y : Int) : (yearText y).toList.filter Char.isDigit = (padded 4 y.natAbs).toList := by
    have hall := List.filter_eq_self.mpr (@isDigit_of_mem_padded 4 y.natAbs)
    unfold yearText
    split
    · rw [String.toList_append, List.filter_append, hall]
      rfl
    · split
      · exact hall
      · rw [String.toList_append, List.filter_append, hall]
        rfl
  have hsign (y : Int) : '-' ∈ (yearText y).toList ↔ y < 0 := by
    have hnone : '-' ∉ (padded 4 y.natAbs).toList := fun hmem =>
      absurd (isDigit_of_mem_padded _ hmem) (by decide)
    unfold yearText
    split
    next hneg => simp [hneg]
    next hnonneg =>
      split <;> simp [hnone, hnonneg]
  have hnumber : y.natAbs = y'.natAbs := by
    rw [← ofDigitChars_padded 4 y.natAbs, ← hdigits, h, hdigits, ofDigitChars_padded]
  have hneg : y < 0 ↔ y' < 0 := by
    rw [← hsign, ← hsign, h]
  omega

/-- Years of four digits are ordered as their texts. -/
theorem compare_yearText {y y' : Int} (hy : 0 ≤ y ∧ y ≤ 9999) (hy' : 0 ≤ y' ∧ y' ≤ 9999) :
    compare (yearText y) (yearText y') = compare y y' := by
  rw [yearText, if_neg (by omega), if_pos hy.2, yearText, if_neg (by omega), if_pos hy'.2,
    compare_string, compare_padded (by decide) (by omega) (by omega)]
  refine compareOfLessAndEq_congr ?_ ?_ <;> omega

/-! ## Moments -/

/-- What stands behind the year in the text of a moment. -/
def afterYear (seconds : Int) : List Char :=
  let date := ofDayNumber (seconds / 86400)
  let time := (seconds % 86400).toNat
  (padded 2 date.month).toList ++ '-' :: ((padded 2 date.day).toList ++ 'T' ::
    ((padded 2 (time / 3600)).toList ++ ':' :: ((padded 2 (time / 60 % 60)).toList ++ ':' ::
      ((padded 2 (time % 60)).toList ++ ['Z']))))

theorem toList_render {seconds : Int} {text : String} (h : render? seconds = some text) :
    text.toList = (yearText (yearOf (seconds / 86400))).toList ++ '-' :: afterYear seconds := by
  rw [render?, Option.ite_none_right_eq_some] at h
  have htext := Option.some.inj h.2
  have hdash : "-".toList = ['-'] := rfl
  have htime : "T".toList = ['T'] := rfl
  have hcolon : ":".toList = [':'] := rfl
  have hzone : "Z".toList = ['Z'] := rfl
  rw [← htext, afterYear, yearOf]
  simp only [String.toList_append, List.append_assoc, hdash, htime, hcolon, hzone,
    List.cons_append, List.nil_append]

/-- Two numbers of two digits with a mark behind each. -/
theorem compare_padded_append_cons {m n : Nat} (hm : m < 100) (hn : n < 100) (mark : Char)
    (cs ds : List Char) :
    compare ((padded 2 m).toList ++ mark :: cs) ((padded 2 n).toList ++ mark :: ds) =
      (compare m n).then (compare cs ds) := by
  have hlength : (padded 2 m).toList.length = (padded 2 n).toList.length := by
    rw [length_padded (by decide) hm, length_padded (by decide) hn]
  rw [compare_append hlength, compare_padded (by decide) hm hn, List.compare_cons_cons,
    Std.ReflOrd.compare_self]
  rfl

/-- Times of day are ordered as their hours, minutes and seconds are. -/
theorem compare_time (a b : Nat) :
    compare a b = (compare (a / 3600) (b / 3600)).then
      ((compare (a / 60 % 60) (b / 60 % 60)).then (compare (a % 60) (b % 60))) := by
  have hminutes (n : Nat) : n / 60 = 60 * (n / 3600) + n / 60 % 60 := by omega
  calc compare a b
      = compare (60 * (a / 60) + a % 60) (60 * (b / 60) + b % 60) := by
        rw [Nat.div_add_mod, Nat.div_add_mod]
    _ = (compare (a / 60) (b / 60)).then (compare (a % 60) (b % 60)) :=
        compare_mul_add (Nat.mod_lt _ (by decide)) (Nat.mod_lt _ (by decide))
    _ = _ := by
        rw [hminutes a, hminutes b, compare_mul_add (Nat.mod_lt _ (by decide))
          (Nat.mod_lt _ (by decide)), Ordering.then_assoc, ← hminutes, ← hminutes]

/-- Moments are ordered as their days are, and those of one day as their times of day. -/
theorem compare_day_time (s t : Int) :
    compare s t = (compare (s / 86400) (t / 86400)).then
      (compare (s % 86400).toNat (t % 86400).toNat) := by
  rcases lt_trichotomy (s / 86400) (t / 86400) with h | h | h
  · rw [compare_lt_iff_lt.mpr h, compare_lt_iff_lt.mpr (by omega : s < t)]
    rfl
  · rw [h, Std.ReflOrd.compare_self, Ordering.eq_then]
    refine compareOfLessAndEq_congr ?_ ?_ <;> omega
  · rw [compare_gt_iff_gt.mpr h, compare_gt_iff_gt.mpr (by omega : t < s)]
    rfl

/-- **Moments are ordered** as their years are, and those of one year as the texts behind it. -/
theorem compare_afterYear (s t : Int) :
    compare s t = (compare (yearOf (s / 86400)) (yearOf (t / 86400))).then
      (compare (afterYear s) (afterYear t)) := by
  have hdate (n : Int) : (ofDayNumber n).month < 100 ∧ (ofDayNumber n).day < 100 := by
    have hday := dayOfYear_bounds n
    rw [ofDayNumber_eq]
    exact monthAndDay_lt_hundred (yearOf n) (by omega)
  have htime (n : Int) : (n % 86400).toNat / 3600 < 100 ∧ (n % 86400).toNat / 60 % 60 < 100 ∧
      (n % 86400).toNat % 60 < 100 := by omega
  rw [compare_day_time, compare_ofDayNumber, compare_time (s % 86400).toNat, afterYear, afterYear,
    compare_padded_append_cons (hdate _).1 (hdate _).1,
    compare_padded_append_cons (hdate _).2 (hdate _).2,
    compare_padded_append_cons (htime _).1 (htime _).1,
    compare_padded_append_cons (htime _).2.1 (htime _).2.1,
    compare_padded_append_cons (htime _).2.2 (htime _).2.2, Std.ReflOrd.compare_self]
  simp only [Ordering.then_assoc, Ordering.then_eq]

section Texts

variable {s t : Int} {text text' : String} (h : render? s = some text)
  (h' : render? t = some text')

include h h'

/-- **The texts of two moments** are ordered as those of their years, and in one year as what
stands behind it. -/
theorem compare_render :
    compare text text' = (compare (yearText (yearOf (s / 86400)))
      (yearText (yearOf (t / 86400)))).then (compare (afterYear s) (afterYear t)) := by
  obtain ⟨c, cs, hyear, hdigits⟩ := exists_toList_yearText (yearOf (s / 86400))
  obtain ⟨c', cs', hyear', hdigits'⟩ := exists_toList_yearText (yearOf (t / 86400))
  -- Behind the first character, which may be a sign, a year has digits, and the dash that ends it
  -- comes before these. So a year that is shorter is not mixed up with what stands behind it.
  rw [compare_string, toList_render h, toList_render h', compare_string (yearText _), hyear, hyear',
    List.cons_append, List.cons_append, List.compare_cons_cons, List.compare_cons_cons,
    compare_append_cons_of_lt (fun d hd => lt_of_isDigit (hdigits d hd))
      (fun d hd => lt_of_isDigit (hdigits' d hd)), Ordering.then_assoc]

/-- **Moments are ordered as their texts are** just if their years are ordered as the texts of
these. -/
theorem compare_render_eq_iff :
    compare text text' = compare s t ↔
      compare (yearText (yearOf (s / 86400))) (yearText (yearOf (t / 86400))) =
        compare (yearOf (s / 86400)) (yearOf (t / 86400)) := by
  rw [compare_render h h', compare_afterYear s t]
  by_cases hyear : yearOf (s / 86400) = yearOf (t / 86400)
  · simp only [hyear, Std.ReflOrd.compare_self]
  · have htext : compare (yearText (yearOf (s / 86400))) (yearText (yearOf (t / 86400))) ≠ .eq :=
      fun heq => hyear (yearText_injective (Std.LawfulEqOrd.eq_of_compare heq))
    have hyears : compare (yearOf (s / 86400)) (yearOf (t / 86400)) ≠ .eq :=
      fun heq => hyear (Std.LawfulEqOrd.eq_of_compare heq)
    rw [then_of_ne_eq htext, then_of_ne_eq hyears]

end Texts

end Timestamp

end Michelson
