import Mathlib.Data.Char
import Michelson.Proofs.Order.Lexicographic
import Michelson.Text.Utf8

/-!
# The order of UTF-8

Texts are ordered as the bytes of their UTF-8 forms are: of two characters the one that comes first
has the lower byte at the first place at which the two forms differ, and no form is continued by
another.

## Main results

* `Text.below_utf8EncodeChar`: the forms of two characters
* `Text.compare_utf8`: the forms of two texts
-/

namespace Michelson.Text

/-- Whether two byte strings differ at a place of both, and the first has the lower byte there. -/
def Below : List UInt8 → List UInt8 → Prop
  | b :: bs, c :: cs => b.toNat < c.toNat ∨ b.toNat = c.toNat ∧ Below bs cs
  | _, _ => False

/-- A lower byte decides, whatever follows. -/
theorem compare_append_of_below {bs cs : List UInt8} (h : Below bs cs) (xs ys : List UInt8) :
    compare (bs ++ xs) (cs ++ ys) = .lt := by
  induction bs generalizing cs with
  | nil => cases h
  | cons b bs ih =>
    cases cs with
    | nil => cases h
    | cons c cs =>
      rw [List.cons_append, List.cons_append, List.compare_cons_cons, ← compare_toNat]
      rcases h with hlt | ⟨heq, hrest⟩
      · rw [Nat.compare_eq_lt.mpr hlt]
        rfl
      · rw [Nat.compare_eq_eq.mpr heq, ih hrest]
        rfl

/-- **The UTF-8 forms of two characters.** -/
theorem below_utf8EncodeChar {c d : Char} (h : c < d) :
    Below (String.utf8EncodeChar c) (String.utf8EncodeChar d) := by
  have hlt : c.val.toNat < d.val.toNat := h
  have hd : d.val.toNat < 0x110000 := by
    have hvalid := d.valid
    simp only [UInt32.isValidChar, Nat.isValidChar] at hvalid
    omega
  have hsecond (v : Nat) : v / 4096 = v / 64 / 64 := by omega
  have hthird (v : Nat) : v / 262144 = v / 64 / 64 / 64 := by omega
  unfold String.utf8EncodeChar
  dsimp only
  split_ifs
  all_goals
    simp only [Below, UInt8.toNat_ofNat', hsecond, hthird]
    omega

theorem compare_flatMap_utf8EncodeChar (cs ds : List Char) :
    compare (cs.flatMap String.utf8EncodeChar) (ds.flatMap String.utf8EncodeChar) =
      compare cs ds := by
  induction cs generalizing ds with
  | nil =>
    cases ds with
    | nil => rfl
    | cons d ds =>
      obtain ⟨b, bs, hbs⟩ := List.exists_cons_of_ne_nil (String.utf8EncodeChar_ne_nil (c := d))
      rw [List.flatMap_cons, hbs]
      rfl
  | cons c cs ih =>
    cases ds with
    | nil =>
      obtain ⟨b, bs, hbs⟩ := List.exists_cons_of_ne_nil (String.utf8EncodeChar_ne_nil (c := c))
      rw [List.flatMap_cons, hbs]
      rfl
    | cons d ds =>
      rw [List.flatMap_cons, List.flatMap_cons, List.compare_cons_cons]
      rcases lt_trichotomy c d with hcd | rfl | hcd
      · have hlt : compare c d = .lt := compare_lt_iff_lt.mpr hcd
        rw [compare_append_of_below (below_utf8EncodeChar hcd), hlt]
        rfl
      · rw [compare_append rfl, Std.ReflOrd.compare_self, Std.ReflOrd.compare_self, ih]
      · have hgt : compare c d = .gt := compare_gt_iff_gt.mpr hcd
        rw [Std.OrientedOrd.eq_swap, compare_append_of_below (below_utf8EncodeChar hcd), hgt]
        rfl

/-- **Texts are ordered as their UTF-8 forms.** -/
theorem compare_utf8 (s t : String) : compare (utf8 s) (utf8 t) = compare s t := by
  rw [compare_string, utf8, utf8, compare_flatMap_utf8EncodeChar]

end Michelson.Text
