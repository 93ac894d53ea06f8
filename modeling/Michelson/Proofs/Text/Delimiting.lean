import Mathlib.Data.List.Basic
import Mathlib.Tactic.SplitIfs
import Michelson.Text.Quoted

/-!
# Texts told from what follows

A text that is followed by others is found again if it cannot be read in two ways: a word ends at the
first blank or parenthesis, a quoted text at the first quote without a backslash, and a list of texts
where no separator and further text stands. An escaped character is read back with nothing else
known of what stands behind it.

## Main definitions

* `unescape?`: the character that is shown first, and what stands behind it
* `Delimits`: things that their text tells, whatever follows it of a given form
* `separated`: texts with a separator before each

## Main results

* `unescape?_escape`: an escaped character is read back
* `quote_append_inj`: a quoted text is told from what follows
* `word_append_inj`: so is a word
* `Delimits.separated`: so are the texts of a list, if those of its items are
-/

namespace Michelson.Text

/-! ## Escaped characters -/

/-- The value of a hexadecimal digit. -/
def hexValue (c : Char) : Nat := ['0', '1', '2', '3', '4', '5', '6', '7', '8', '9', 'a', 'b', 'c',
  'd', 'e', 'f'].idxOf c

/-- The number that hexadecimal digits spell. -/
def hexNumber (cs : List Char) : Nat := cs.foldl (fun n c => 16 * n + hexValue c) 0

/-- A digit has its value, and is no delimiter. -/
theorem hexValue_digitChar : ∀ d < 16, hexValue d.digitChar = d ∧ d.digitChar ≠ '\x7d' := by
  decide

/-- **Hexadecimal digits** spell their number, and there is no brace among them. -/
theorem hexNumber_toDigits (n : Nat) :
    hexNumber (Nat.toDigits 16 n) = n ∧ '\x7d' ∉ Nat.toDigits 16 n := by
  induction n using Nat.strongRecOn with
  | ind n ih =>
    rw [Nat.toDigits_eq_if (by decide)]
    split
    next hlt =>
      obtain ⟨hvalue, hne⟩ := hexValue_digitChar n hlt
      refine ⟨?_, fun hmem => hne (List.mem_singleton.mp hmem).symm⟩
      rw [hexNumber, List.foldl_cons, List.foldl_nil, hvalue, Nat.mul_zero, Nat.zero_add]
    next hge =>
      obtain ⟨hvalue, hne⟩ := hexValue_digitChar (n % 16) (Nat.mod_lt _ (by decide))
      obtain ⟨hnumber, hnot⟩ := ih (n / 16) (by omega)
      constructor
      · rw [hexNumber] at hnumber ⊢
        rw [List.foldl_append, hnumber, List.foldl_cons, List.foldl_nil, hvalue]
        omega
      · rw [List.mem_append, List.mem_singleton]
        rintro (hmem | hmem)
        · exact hnot hmem
        · exact hne hmem.symm

/-- **The character that is shown first** in quoted text, and what stands behind it. -/
def unescape? : List Char → Option (Char × List Char)
  | '\\' :: 'u' :: '\x7b' :: cs =>
    some (Char.ofNat (hexNumber (cs.takeWhile (· ≠ '\x7d'))), (cs.dropWhile (· ≠ '\x7d')).tail)
  | '\\' :: '0' :: cs => some ('\x00', cs)
  | '\\' :: 't' :: cs => some ('\t', cs)
  | '\\' :: 'r' :: cs => some ('\r', cs)
  | '\\' :: 'n' :: cs => some ('\n', cs)
  | '\\' :: c :: cs => some (c, cs)
  | c :: cs => some (c, cs)
  | [] => none

theorem unescape?_codeEscape (c : Char) (cs : List Char) :
    unescape? (codeEscape c ++ cs) = some (c, cs) := by
  obtain ⟨hnumber, hnot⟩ := hexNumber_toDigits c.toNat
  have hall : ∀ d ∈ Nat.toDigits 16 c.toNat, decide (d ≠ '\x7d') = true := by
    intro d hd
    rw [decide_eq_true_eq]
    rintro rfl
    exact hnot hd
  simp only [codeEscape, List.append_assoc, List.cons_append, List.nil_append, unescape?]
  rw [List.takeWhile_append_of_pos hall, List.dropWhile_append_of_pos hall,
    List.takeWhile_cons_of_neg (by simp), List.dropWhile_cons_of_neg (by simp), List.append_nil,
    hnumber, Char.ofNat_toNat]
  rfl

/-- **An escaped character is read back**, whatever stands behind it. -/
theorem unescape?_escape (c : Char) (cs : List Char) :
    unescape? (escape '"' c ++ cs) = some (c, cs) := by
  unfold escape
  split_ifs with hnull htab hreturn hfeed hself hcode
  · rw [hnull]
    rfl
  · rw [htab]
    rfl
  · rw [hreturn]
    rfl
  · rw [hfeed]
    rfl
  · rw [Bool.or_eq_true, decide_eq_true_eq, decide_eq_true_eq] at hself
    rcases hself with rfl | rfl <;> rfl
  · exact unescape?_codeEscape c cs
  · rw [List.singleton_append]
    unfold unescape?
    split <;> simp_all

/-- No escaped character starts with the quote that ends the text. -/
theorem head?_escape_append (c : Char) (cs : List Char) :
    ∃ d ds, escape '"' c ++ cs = d :: ds ∧ d ≠ '"' := by
  unfold escape
  split_ifs with hnull htab hreturn hfeed hself hcode
  case neg =>
    refine ⟨c, cs, rfl, ?_⟩
    rintro rfl
    exact hself rfl
  all_goals exact ⟨'\\', _, rfl, by decide⟩

/-! ## Quoted texts and words -/

/-- **A quoted text is told from what follows**: its end is the first quote that is not escaped. -/
theorem quote_append_inj {s t : String} {r r' : List Char}
    (h : (quote s).toList ++ r = (quote t).toList ++ r') : s = t ∧ r = r' := by
  have hescaped : ∀ cs ds : List Char,
      cs.flatMap (escape '"') ++ '"' :: r = ds.flatMap (escape '"') ++ '"' :: r' →
        cs = ds ∧ r = r' := by
    intro cs
    induction cs with
    | nil =>
      rintro (_ | ⟨d, ds⟩) heq
      · exact ⟨rfl, List.cons.inj heq |>.2⟩
      · rw [List.flatMap_cons, List.append_assoc] at heq
        obtain ⟨e, es, hes, hne⟩ := head?_escape_append d (ds.flatMap (escape '"') ++ '"' :: r')
        exact absurd (List.cons.inj (heq.trans hes)).1.symm hne
    | cons c cs ih =>
      rintro (_ | ⟨d, ds⟩) heq
      · rw [List.flatMap_cons, List.append_assoc] at heq
        obtain ⟨e, es, hes, hne⟩ := head?_escape_append c (cs.flatMap (escape '"') ++ '"' :: r)
        exact absurd (List.cons.inj (heq.symm.trans hes)).1.symm hne
      · rw [List.flatMap_cons, List.flatMap_cons, List.append_assoc, List.append_assoc] at heq
        have hfirst := congrArg unescape? heq
        rw [unescape?_escape, unescape?_escape, Option.some_inj, Prod.mk.injEq] at hfirst
        obtain ⟨rfl, htail⟩ := hfirst
        obtain ⟨rfl, hrest⟩ := ih ds htail
        exact ⟨rfl, hrest⟩
  have hquote (s : String) (r : List Char) : (quote s).toList ++ r =
      '"' :: (s.toList.flatMap (escape '"') ++ '"' :: r) := by
    simp [quote]
  rw [hquote, hquote] at h
  obtain ⟨hst, hrest⟩ := hescaped _ _ (List.cons.inj h).2
  exact ⟨String.toList_inj.mp hst, hrest⟩

/-- Whether a text ends where the characters behind it start. -/
def EndsWord (cs : List Char) : Prop := ∀ c ∈ cs.head?, c = ' ' ∨ c = ')'

/-- Whether characters have no end of a word among them. -/
def IsWord (cs : List Char) : Prop := ∀ c ∈ cs, c ≠ ' ' ∧ c ≠ ')'

-- by the list, since there are finitely many characters but too many to be looked at
instance (cs : List Char) : Decidable (IsWord cs) := List.decidableBAll _ cs

/-- **A word is told from what follows**: its end is the first blank or parenthesis. -/
theorem word_append_inj {w w' r r' : List Char} (hw : IsWord w) (hw' : IsWord w')
    (hr : EndsWord r) (hr' : EndsWord r') (h : w ++ r = w' ++ r') : w = w' ∧ r = r' := by
  have hnot {c : Char} {cs ds : List Char} (hcs : IsWord (c :: cs)) (hds : EndsWord (c :: ds)) :
      False := by
    rcases hds c rfl with hc | hc
    · exact (hcs c List.mem_cons_self).1 hc
    · exact (hcs c List.mem_cons_self).2 hc
  induction w generalizing w' with
  | nil =>
    cases w' with
    | nil => exact ⟨rfl, h⟩
    | cons c w' =>
      rw [List.nil_append] at h
      rw [h] at hr
      exact (hnot hw' hr).elim
  | cons c w ih =>
    cases w' with
    | nil =>
      rw [List.nil_append] at h
      rw [← h] at hr'
      exact (hnot hw hr').elim
    | cons d w' =>
      obtain ⟨rfl, htail⟩ := List.cons.inj h
      obtain ⟨rfl, hrest⟩ := ih (fun d hd => hw d (List.mem_cons_of_mem _ hd))
        (fun d hd => hw' d (List.mem_cons_of_mem _ hd)) htail
      exact ⟨rfl, hrest⟩

/-! ## Lists of texts -/

section Lists

variable {α β : Type} {Ends Closes : List Char → Prop} {Good : α → Prop} {write : α → List Char}
  {view : α → β} {sep r s : List Char}

/-- **What its text tells**, whatever follows: no other good thing has a text that goes on to the
same characters, where both texts end. -/
def Delimits (Ends : List Char → Prop) (Good : α → Prop) (write : α → List Char) (view : α → β)
    (x : α) : Prop :=
  ∀ y r s, Good y → Ends r → Ends s → write x ++ r = write y ++ s → view x = view y ∧ r = s

/-- The texts of a list, with a separator before each. -/
def separated (sep : List Char) (write : α → List Char) (xs : List α) : List Char :=
  xs.flatMap fun x => sep ++ write x

theorem separated_cons_append (x : α) (xs : List α) :
    separated sep write (x :: xs) ++ r = sep ++ (write x ++ (separated sep write xs ++ r)) := by
  rw [separated, List.flatMap_cons, List.append_assoc, List.append_assoc, ← separated]

/-- Texts that are separated end where the separator or the end of the list stands. -/
theorem ends_separated_append (hsep : ∀ cs, Ends (sep ++ cs)) (hr : Ends r) (xs : List α) :
    Ends (separated sep write xs ++ r) := by
  cases xs with
  | nil => exact hr
  | cons x xs =>
    rw [separated_cons_append]
    exact hsep _

/-- **The texts of a list are told from what follows**, if those of its items are, and if no
separator and text of an item stand where the list is closed. -/
theorem Delimits.separated {xs ys : List α} (hxs : ∀ x ∈ xs, Good x ∧ Delimits Ends Good write view x)
    (hys : ∀ y ∈ ys, Good y) (hsep : ∀ cs, Ends (sep ++ cs)) (hcloses : ∀ cs, Closes cs → Ends cs)
    (happart : ∀ x cs, Good x → ¬Closes (sep ++ (write x ++ cs))) (hr : Closes r) (hs : Closes s)
    (h : Text.separated sep write xs ++ r = Text.separated sep write ys ++ s) :
    xs.map view = ys.map view ∧ r = s := by
  induction xs generalizing ys with
  | nil =>
    cases ys with
    | nil => exact ⟨rfl, h⟩
    | cons y ys =>
      rw [separated_cons_append] at h
      have hr' : Closes (sep ++ (write y ++ (Text.separated sep write ys ++ s))) := h ▸ hr
      exact (happart y _ (hys y List.mem_cons_self) hr').elim
  | cons x xs ih =>
    rw [List.forall_mem_cons] at hxs
    cases ys with
    | nil =>
      rw [separated_cons_append] at h
      have hs' : Closes (sep ++ (write x ++ (Text.separated sep write xs ++ r))) :=
        h.symm ▸ hs
      exact (happart x _ hxs.1.1 hs').elim
    | cons y ys =>
      rw [List.forall_mem_cons] at hys
      rw [separated_cons_append, separated_cons_append] at h
      obtain ⟨hview, hrest⟩ := hxs.1.2 y _ _ hys.1
        (ends_separated_append hsep (hcloses r hr) xs)
        (ends_separated_append hsep (hcloses s hs) ys) (List.append_cancel_left h)
      obtain ⟨hviews, hclose⟩ := ih hxs.2 hys.2 hrest
      refine ⟨?_, hclose⟩
      rw [List.map_cons, List.map_cons, hview, hviews]

end Lists

end Michelson.Text
