import Mathlib.Data.List.Forall2
import Michelson.Json.Printer
import Michelson.Json.Reader

/-!
# Reading JSON text back

What a reader takes from a text that starts with the compact form of something: the thing itself,
with what follows left over. Strings, words and brackets end by themselves, so nothing has to be
known of what follows; only a number would need that.

## Main definitions

* `Reader.Takes`: a reader takes a value from the front, whatever follows
* `Reader.Opens`: texts that start like a value
* `Reader.TakesMembers`: members change a state one after the other

## Main results

* `scanString?_escape`: a character is read back from what shows it
* `Reader.takes_arrayOf`: an array is read if its items are
* `Reader.takes_objectOf`: an object is read if its members are
* `Reader.run_of_takes`: a document is read as a whole
-/

namespace Michelson.Json

/-! ## Characters of strings -/

/-- The code of a control character is read back from its four digits. -/
theorem hexValue?_digitChar {n : Nat} (h : n < 0x20) :
    hexValue? '0' '0' (Nat.digitChar (n / 16)) (Nat.digitChar (n % 16)) = some n := by
  decide +revert

/-- The characters that are shown by an escape of one letter, and their letters. -/
def letters : List (Char × Char) :=
  [('"', '"'), ('\\', '\\'), ('\x08', 'b'), ('\x0c', 'f'), ('\n', 'n'), ('\r', 'r'), ('\t', 't')]

theorem escape_of_mem_letters : ∀ p ∈ letters,
    escape p.1 = ['\\', p.2] ∧ unescape? p.2 = some p.1 ∧ p.2 ≠ 'u' := by
  decide

theorem escape_of_notMem_letters {c : Char} (h : c ∉ letters.map Prod.fst) :
    escape c = if c.toNat < 0x20 then
        ['\\', 'u', '0', '0', Nat.digitChar (c.toNat / 16), Nat.digitChar (c.toNat % 16)]
      else [c] := by
  simp only [letters, List.map_cons, List.map_nil, List.mem_cons, not_or] at h
  obtain ⟨hquote, hslash, hb, hf, hn, hr, ht, -⟩ := h
  rw [escape, if_neg hquote, if_neg hslash, if_neg hb, if_neg hf, if_neg hn, if_neg hr, if_neg ht]

section Scanning

variable {a b c d letter : Char} {n : Nat} (acc tail : List Char)

theorem scanString?_letter (h : unescape? letter = some c) (hu : letter ≠ 'u') :
    scanString? acc ('\\' :: letter :: tail) = scanString? (c :: acc) tail := by
  rw [scanString?]
  · simp [h]
  · intro a b c d rest heq
    simp_all

/-- The digits of a unit that is no surrogate stand for a character by themselves, also if further
digits follow. -/
theorem scanString?_unit (h : hexValue? a b c d = some n) (hn : n < 0x20) :
    scanString? acc ('\\' :: 'u' :: a :: b :: c :: d :: tail) =
      scanString? (Char.ofNat n :: acc) tail := by
  have hlow : isLowSurrogate n = false := by
    simp only [isLowSurrogate, Bool.and_eq_false_iff, decide_eq_false_iff_not]
    omega
  have hhigh : isHighSurrogate n = false := by
    simp only [isHighSurrogate, Bool.and_eq_false_iff, decide_eq_false_iff_not]
    omega
  rw [scanString?.eq_def]
  simp only [h]
  split <;> simp_all

theorem scanString?_plain (hquote : c ≠ '"') (hslash : c ≠ '\\') (hcode : ¬ c.toNat < 0x20) :
    scanString? acc (c :: tail) = scanString? (c :: acc) tail := by
  rw [scanString?, if_neg hcode]
  all_goals simp_all

/-- **A character is read back** from what shows it. -/
theorem scanString?_escape (c : Char) :
    scanString? acc (escape c ++ tail) = scanString? (c :: acc) tail := by
  by_cases hletter : c ∈ letters.map Prod.fst
  · obtain ⟨p, hp, rfl⟩ := List.mem_map.mp hletter
    obtain ⟨hescape, hread, hu⟩ := escape_of_mem_letters p hp
    rw [hescape]
    exact scanString?_letter acc tail hread hu
  · rw [escape_of_notMem_letters hletter]
    by_cases hcode : c.toNat < 0x20
    · have hunit := scanString?_unit acc tail (hexValue?_digitChar hcode) hcode
      rw [Char.ofNat_toNat] at hunit
      rw [if_pos hcode]
      exact hunit
    · rw [if_neg hcode]
      refine scanString?_plain acc tail ?_ ?_ hcode
      · rintro rfl
        exact hletter (by decide)
      · rintro rfl
        exact hletter (by decide)

/-- A text is read back up to its closing quote. -/
theorem scanString?_flatMap_escape (cs : List Char) :
    scanString? acc (cs.flatMap escape ++ '"' :: tail) =
      some (String.ofList (acc.reverse ++ cs), tail) := by
  induction cs generalizing acc with
  | nil => rw [List.append_nil, List.flatMap_nil, List.nil_append, scanString?]
  | cons c cs ih =>
    rw [List.flatMap_cons, List.append_assoc, scanString?_escape, ih, List.reverse_cons,
      List.append_assoc, List.singleton_append]

end Scanning

namespace Reader

variable {ε α β σ : Type}

/-! ## What a reader takes -/

/-- **A reader takes a value** from the front of a text if that starts with the given characters,
whatever follows them. -/
def Takes (reader : Reader ε α) (text : List Char) (x : α) : Prop :=
  ∀ rest, reader (text ++ rest) = .ok (x, rest)

/-- **Texts that start like a value**: neither with a blank nor with what closes an array or an
object. -/
def Opens (text : List Char) : Prop :=
  ∃ c, text.head? = some c ∧ isBlank c = false ∧ c ≠ ']' ∧ c ≠ '\x7d'

theorem Opens.append {text : List Char} (h : Opens text) (more : List Char) :
    Opens (text ++ more) := by
  obtain ⟨c, hc, hblank⟩ := h
  exact ⟨c, by rw [List.head?_append, hc, Option.some_or], hblank⟩

section Sequencing

variable {r : Reader ε α} {f : α → Reader ε β} {text more s s' : List Char} {x : α} {y : β}
  {c : Char}

theorem bind_of_ok (h : r s = .ok (x, s')) : (r >>= f) s = f x s' := by
  show (r s >>= fun p => f p.1 p.2) = f x s'
  rw [h]
  rfl

theorem get_apply (s : List Char) : (get : Reader ε (List Char)) s = .ok (s, s) := rfl

/-- A reader that takes nothing. -/
theorem takes_pure (x : α) : Takes (pure x : Reader ε α) [] x := fun _ => rfl

/-- Readers follow one another as their texts do. -/
theorem Takes.bind (hr : r.Takes text x) (hf : (f x).Takes more y) :
    (r >>= f).Takes (text ++ more) y := by
  intro rest
  rw [List.append_assoc, bind_of_ok (hr (more ++ rest)), hf]

/-- What comes last may take nothing. -/
theorem Takes.last (hr : r.Takes text x) (hf : (f x).Takes [] y) : (r >>= f).Takes text y := by
  have h := hr.bind hf
  rwa [List.append_nil] at h

theorem Takes.map (hr : r.Takes text x) (f : α → β) : Takes (do return f (← r)) text (f x) :=
  hr.last (takes_pure (f x))

theorem peek?_apply (s : List Char) : (peek? : Reader ε (Option Char)) s = .ok (s.head?, s) := rfl

theorem skipBlanks_apply (s : List Char) :
    (skipBlanks : Reader ε Unit) s = .ok ((), s.dropWhile isBlank) := rfl

/-- A look at the next character takes nothing. -/
theorem Takes.peek {f : Option Char → Reader ε β} (hc : text.head? = some c)
    (hf : (f (some c)).Takes text y) : (peek? >>= f).Takes text y := by
  intro rest
  have hhead : (text ++ rest).head? = some c := by rw [List.head?_append, hc, Option.some_or]
  rw [bind_of_ok (peek?_apply _), hhead, hf]

/-- No blank is passed over in front of anything else. -/
theorem Takes.skip (hc : text.head? = some c) (hblank : isBlank c = false)
    (hr : r.Takes text x) : (skipBlanks >>= fun _ => r).Takes text x := by
  intro rest
  obtain ⟨tail, rfl⟩ := List.head?_eq_some_iff.mp hc
  have hkept : (c :: tail ++ rest).dropWhile isBlank = c :: tail ++ rest := by
    rw [List.cons_append, List.dropWhile_cons_of_neg (by simp [hblank])]
  rw [bind_of_ok (skipBlanks_apply _), hkept, hr]

/-- What follows may serve as fuel. -/
theorem Takes.fuel {f : List Char → Reader ε β} (hf : ∀ rest, (f (text ++ rest)).Takes text y) :
    (get >>= f).Takes text y := by
  intro rest
  rw [bind_of_ok (get_apply _), hf]

end Sequencing

theorem takes_expect (c : Char) : (expect c : Reader ε Unit).Takes [c] () := by
  intro rest
  simp [expect, scan]

theorem takes_expectWord (word : String) :
    (expectWord word : Reader ε Unit).Takes word.toList () := by
  intro rest
  have hprefix : word.toList.isPrefixOf (word.toList ++ rest) = true :=
    List.isPrefixOf_iff_prefix.mpr (List.prefix_append ..)
  have hrest : (word.toList ++ rest).drop word.length = rest := by
    rw [← String.length_toList, List.drop_left]
  simp only [expectWord, scan, if_pos hprefix, hrest]

theorem toList_quote (s : String) :
    (quote s).toList = '"' :: (s.toList.flatMap escape ++ ['"']) := by
  simp [quote]

/-- A quoted text is read back. -/
theorem takes_string (s : String) : (string : Reader ε String).Takes (quote s).toList s := by
  intro rest
  have hopen : (expect '"' : Reader ε Unit) ((quote s).toList ++ rest) =
      .ok ((), s.toList.flatMap escape ++ '"' :: rest) := by
    rw [toList_quote, List.cons_append, List.append_assoc]
    exact takes_expect '"' _
  rw [string, bind_of_ok hopen]
  simp only [scan, scanString?_flatMap_escape]
  simp

/-! ## Arrays -/

/-- The text of an array with items of the given texts. -/
def arrayText (texts : List (List Char)) : List Char := '[' :: ([','].intercalate texts ++ [']'])

/-- After the first of several texts, each comes after a comma. -/
theorem intercalate_comma_cons (text : List Char) (texts : List (List Char)) :
    [','].intercalate (text :: texts) = text ++ texts.flatMap (',' :: ·) := by
  induction texts generalizing text with
  | nil => simp
  | cons next texts ih =>
    rw [List.intercalate_cons_cons, ih, List.flatMap_cons, List.append_assoc,
      List.singleton_append]
    rfl

theorem length_le_length_flatMap_comma (texts : List (List Char)) :
    texts.length ≤ (texts.flatMap (',' :: ·)).length := by
  induction texts with
  | nil => exact Nat.le_refl 0
  | cons text texts ih =>
    rw [List.flatMap_cons, List.length_append, List.length_cons, List.length_cons]
    omega

section Arrays

variable {item : Reader ε α} {texts : List (List Char)} {xs : List α}

/-- The further items of an array are read up to its bracket. -/
theorem takes_moreItems (h : List.Forall₂ item.Takes texts xs) (fuel : List Char)
    (hfuel : texts.length < fuel.length) (acc : List α) :
    (moreItems item fuel acc).Takes (texts.flatMap (',' :: ·) ++ [']']) (acc.reverse ++ xs) := by
  induction h generalizing fuel acc with
  | nil =>
    cases fuel with
    | nil => cases hfuel
    | cons _ fuel =>
      have hclose := (takes_expect (ε := ε) ']').map fun _ => acc.reverse
      rw [List.append_nil]
      exact Takes.skip (c := ']') rfl rfl (Takes.peek rfl hclose)
  | @cons text x texts xs hx _ ih =>
    cases fuel with
    | nil => cases hfuel
    | cons _ fuel =>
      have hmore := ih fuel (Nat.lt_of_succ_lt_succ hfuel) (x :: acc)
      rw [List.reverse_cons, List.append_assoc, List.singleton_append] at hmore
      have hall := (takes_expect (ε := ε) ',').bind (f := fun _ => do
        moreItems item fuel ((← item) :: acc)) (hx.bind hmore)
      rw [List.singleton_append] at hall
      rw [List.flatMap_cons, List.append_assoc, List.cons_append]
      exact Takes.skip (c := ',') rfl rfl (Takes.peek rfl hall)

/-- **An array is read if its items are.** -/
theorem takes_arrayOf (h : List.Forall₂ item.Takes texts xs) (hopens : ∀ text ∈ texts, Opens text) :
    (arrayOf item).Takes (arrayText texts) xs := by
  rw [arrayText, ← List.singleton_append]
  refine (takes_expect '[').bind ?_
  cases h with
  | nil =>
    have hclose := (takes_expect (ε := ε) ']').map fun _ => ([] : List α)
    exact Takes.skip (c := ']') rfl rfl (Takes.peek rfl hclose)
  | @cons text x texts xs hx hxs =>
    rw [List.forall_mem_cons] at hopens
    obtain ⟨c, hc, hblank, hbracket, -⟩ := hopens.1.append (texts.flatMap (',' :: ·) ++ [']'])
    rw [intercalate_comma_cons, List.append_assoc]
    refine Takes.skip hc hblank (Takes.peek hc ?_)
    split
    · simp_all
    · refine Takes.fuel fun rest => hx.bind (takes_moreItems hxs _ ?_ [x])
      have hlength := length_le_length_flatMap_comma texts
      simp only [List.length_append, List.length_singleton]
      omega

end Arrays

/-! ## Objects -/

/-- The text of a member with a value of the given text. -/
def memberText (member : String × List Char) : List Char :=
  (quote member.1).toList ++ ':' :: member.2

/-- The text of an object with values of the given texts. -/
def objectText (members : List (String × List Char)) : List Char :=
  '\x7b' :: ([','].intercalate (members.map memberText) ++ ['\x7d'])

theorem opens_quote (s : String) : Opens (quote s).toList := by
  rw [toList_quote]
  exact ⟨'"', rfl, by decide, by decide, by decide⟩

theorem opens_memberText (member : String × List Char) : Opens (memberText member) :=
  (opens_quote member.1).append _

/-- **Members change a state** one after the other, each by the value under its name. -/
inductive TakesMembers (member : σ → String → Reader ε σ) :
    σ → List (String × List Char) → σ → Prop
  | nil (state : σ) : TakesMembers member state [] state
  | cons {state next final : σ} {name : String} {text : List Char}
      {members : List (String × List Char)} (first : (member state name).Takes text next)
      (rest : TakesMembers member next members final) :
      TakesMembers member state ((name, text) :: members) final

section Objects

variable {member : σ → String → Reader ε σ} {state next final : σ} {name : String}
  {text : List Char} {members : List (String × List Char)}

theorem takes_memberOf (h : (member state name).Takes text next) :
    (memberOf member state).Takes (memberText (name, text)) next := by
  have hcolon : (do skipBlanks; expect ':'; member state name : Reader ε σ).Takes (':' :: text)
      next := Takes.skip rfl (by decide) ((takes_expect ':').bind h)
  obtain ⟨c, hc, hblank, -⟩ := opens_memberText (name, text)
  exact Takes.skip hc hblank ((takes_string name).bind hcolon)

/-- The further members of an object are read up to its brace. -/
theorem takes_moreMembers (h : TakesMembers member state members final) (fuel : List Char)
    (hfuel : members.length < fuel.length) :
    (moreMembers member fuel state).Takes
      ((members.map memberText).flatMap (',' :: ·) ++ ['\x7d']) final := by
  induction h generalizing fuel with
  | nil state =>
    cases fuel with
    | nil => cases hfuel
    | cons _ fuel =>
      have hclose := (takes_expect (ε := ε) '\x7d').map fun _ => state
      exact Takes.skip (c := '\x7d') rfl rfl (Takes.peek rfl hclose)
  | @cons state next final name text members hfirst _ ih =>
    cases fuel with
    | nil => cases hfuel
    | cons _ fuel =>
      have hmore := (takes_memberOf hfirst).bind (ih fuel (Nat.lt_of_succ_lt_succ hfuel))
      have hall := (takes_expect (ε := ε) ',').bind (f := fun _ => do
        moreMembers member fuel (← memberOf member state)) hmore
      rw [List.singleton_append] at hall
      rw [List.map_cons, List.flatMap_cons, List.append_assoc, List.cons_append]
      exact Takes.skip (c := ',') rfl rfl (Takes.peek rfl hall)

/-- **An object is read if its members are.** -/
theorem takes_objectOf (h : TakesMembers member state members final) :
    (objectOf member state).Takes (objectText members) final := by
  rw [objectText, ← List.singleton_append]
  refine (takes_expect '\x7b').bind ?_
  cases h with
  | nil =>
    have hclose := (takes_expect (ε := ε) '\x7d').map fun _ => state
    exact Takes.skip (c := '\x7d') rfl rfl (Takes.peek rfl hclose)
  | @cons _ next _ name text members hfirst hmembers =>
    obtain ⟨c, hc, hblank, -, hbrace⟩ := (opens_memberText (name, text)).append
      ((members.map memberText).flatMap (',' :: ·) ++ ['\x7d'])
    rw [List.map_cons, intercalate_comma_cons, List.append_assoc]
    refine Takes.skip hc hblank (Takes.peek hc ?_)
    split
    · simp_all
    · refine Takes.fuel fun rest =>
        (takes_memberOf hfirst).bind (takes_moreMembers hmembers _ ?_)
      have hlength := length_le_length_flatMap_comma (members.map memberText)
      simp only [List.length_append, List.length_singleton, List.length_map] at hlength ⊢
      omega

end Objects

/-! ## Documents -/

/-- **A document is read as a whole** if the reader takes its text. -/
theorem run_of_takes {reader : Reader ε α} {text : String} {x : α}
    (h : reader.Takes text.toList x) (hopens : Opens text.toList) : reader.run text = .ok x := by
  obtain ⟨c, hc, hblank, -⟩ := hopens
  have hread : reader text.toList = .ok (x, []) := by simpa only [List.append_nil] using h []
  have hstart : (skipBlanks : Reader ε Unit) text.toList = .ok ((), text.toList) := by
    obtain ⟨tail, htail⟩ := List.head?_eq_some_iff.mp hc
    rw [skipBlanks_apply, htail, List.dropWhile_cons_of_neg (by simp [hblank])]
  rw [run, bind_of_ok hstart, bind_of_ok hread]
  rfl

end Reader

end Michelson.Json
