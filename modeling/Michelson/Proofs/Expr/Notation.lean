import Michelson.Expr.Annot
import Michelson.Expr.Printer
import Michelson.Proofs.Expr.JsonForm
import Michelson.Proofs.Expr.PackedFlags
import Michelson.Proofs.Text.Delimiting

/-!
# One reading of Michelson text

Two expressions have the same text only if they are equal. The first character of a text tells what
form the expression has; an argument that is an application with more than its name stands in
parentheses, so that its end is seen; and behind an item of a sequence stand a semicolon or a brace,
with which no expression and no annotation starts. An annotation has to be a word that starts with
its sign, and literals and sequences have to carry none, since theirs are not written.

## Main definitions

* `Expr.IsNotation`: expressions whose text tells everything but the packed flags
* `Expr.Opening`, `Expr.opening`: how the text of an expression starts
* `Expr.chars`: the characters of the text, as an argument or not

## Main results

* `Expr.delimits_chars`: an expression is told by its text, whatever follows
* `Expr.text_eq_text_iff`: expressions with one text are equal
-/

namespace Michelson

open Text

theorem Primitive.isWord_name (p : Primitive) :
    IsWord p.name.toList ∧ ∃ c cs, p.name.toList = c :: cs ∧ c.isAlpha = true := by
  have hall : all.all (fun p => p.name.toList.all (fun c => c != ' ' && c != ')') &&
      p.name.toList.head?.any Char.isAlpha) = true := by decide +kernel
  have hp := List.all_eq_true.mp hall p (mem_all p)
  rw [Bool.and_eq_true, List.all_eq_true] at hp
  refine ⟨fun c hc => by simpa using hp.1 c hc, ?_⟩
  cases hname : p.name.toList with
  | nil => simp [hname] at hp
  | cons c cs => exact ⟨c, cs, rfl, by simpa [hname] using hp.2⟩

namespace Expr

/-- **Whether an annotation is a word with a sign.** It may hold quotes, braces and semicolons. -/
def IsAnnotWord (annot : String) : Prop :=
  annot.toList.head?.any isAnnotSign = true ∧ IsWord annot.toList

instance (annot : String) : Decidable (IsAnnotWord annot) :=
  inferInstanceAs (Decidable (_ ∧ IsWord annot.toList))

/-- **Whether the text of an expression tells everything** but the packed flags: literals and
sequences carry no annotations, and the annotations of applications are words with a sign. -/
def IsNotation (e : Expr) : Prop :=
  e.AnnotatesApps ∧ ∀ node ∈ e.nodes, ∀ annot ∈ node.annots, IsAnnotWord annot

instance (e : Expr) : Decidable e.IsNotation :=
  inferInstanceAs (Decidable (_ ∧ ∀ node ∈ e.nodes, ∀ annot ∈ node.annots, IsAnnotWord annot))

variable {e e' : Expr} {r s : List Char} {ctx : Bool}

theorem IsNotation.annots_eq_nil (h : e.IsNotation) (hhead : e.head? = none) : e.annots = [] :=
  h.1 e (mem_nodes_self e) hhead

theorem IsNotation.isAnnotWord (h : e.IsNotation) {annot : String} (hannot : annot ∈ e.annots) :
    IsAnnotWord annot :=
  h.2 e (mem_nodes_self e) annot hannot

theorem IsNotation.of_mem_children (h : e.IsNotation) {x : Expr} (hx : x ∈ e.children) :
    x.IsNotation :=
  ⟨fun node hnode => h.1 node (mem_nodes_of_mem_children hx hnode),
    fun node hnode => h.2 node (mem_nodes_of_mem_children hx hnode)⟩

/-! ## The characters of a text -/

/-- The characters of the text of an expression, as an argument or not. -/
def chars (asArgument : Bool) (e : Expr) : List Char := (e.textWithin asArgument).toList

/-- The characters of an application without parentheses. -/
def bareChars (p : Primitive) (xs : List Expr) (as : List String) : List Char :=
  p.name.toList ++ (separated [' '] String.toList as ++ separated [' '] (chars true) xs)

theorem toList_intercalate_cons (sep w : String) (ws : List String) :
    (String.intercalate sep (w :: ws)).toList =
      w.toList ++ separated sep.toList String.toList ws := by
  induction ws generalizing w with
  | nil => simp [separated]
  | cons v ws ih =>
    rw [String.intercalate_cons_cons, String.toList_append, String.toList_append, ih, separated,
      separated, List.flatMap_cons, List.append_assoc, List.append_assoc]

theorem separated_map {α β : Type} {sep : List Char} {write : β → List Char} (f : α → β)
    (xs : List α) : separated sep write (xs.map f) = separated sep (write ∘ f) xs :=
  List.flatMap_map ..

theorem itemTexts_eq_map (xs : List Expr) : itemTexts xs = xs.map (textWithin false) := by
  induction xs with
  | nil => rfl
  | cons x xs ih => rw [itemTexts, ih, List.map_cons]

theorem argTexts_eq_map (xs : List Expr) : argTexts xs = xs.map (textWithin true) := by
  induction xs with
  | nil => rfl
  | cons x xs ih => rw [argTexts, ih, List.map_cons]

theorem chars_seq_cons (x : Expr) (xs : List Expr) (as : List String) :
    chars ctx (seq (x :: xs) as) = '\x7b' :: ' ' :: (chars false x ++
      (separated [' ', ';', ' '] (chars false) xs ++ [' ', '\x7d'])) := by
  rw [chars, textWithin, String.toList_append, String.toList_append, itemTexts_eq_map,
    toList_intercalate_cons, separated_map, List.append_assoc, List.append_assoc]
  rfl

/-- Whether an argument stands in parentheses. -/
def isWrapped (asArgument : Bool) (xs : List Expr) (as : List String) : Bool :=
  asArgument && !(xs.isEmpty && as.isEmpty)

theorem chars_app (p : Primitive) (xs : List Expr) (as : List String) (flag : Bool) :
    chars ctx (app p xs as flag) =
      if isWrapped ctx xs as then '(' :: (bareChars p xs as ++ [')']) else bareChars p xs as := by
  have hbare : (String.intercalate " " (p.name :: as ++ argTexts xs)).toList =
      bareChars p xs as := by
    rw [List.cons_append, toList_intercalate_cons, argTexts_eq_map, separated,
      List.flatMap_append, ← separated, ← separated, separated_map]
    rfl
  rw [chars, textWithin, isWrapped]
  split
  · rw [String.toList_append, String.toList_append, hbare]
    rfl
  · exact hbare

/-! ## How a text starts -/

/-- How the text of an expression can start. -/
inductive Opening where
  | number | quote | brace | parenthesis | name
  deriving DecidableEq

/-- What opens with a character. -/
def Opening.of? (c : Char) : Option Opening :=
  if c.isDigit || c == '-' then some number
  else if c == '"' then some quote
  else if c == '\x7b' then some brace
  else if c == '(' then some parenthesis
  else if c.isAlpha then some name
  else none

/-- How the text of an expression starts. -/
def opening (asArgument : Bool) : Expr → Opening
  | int .. | bytes .. => .number
  | string .. => .quote
  | seq .. => .brace
  | app _ xs as _ => if isWrapped asArgument xs as then .parenthesis else .name

theorem Opening.of?_of_isAlpha {c : Char} (h : c.isAlpha = true) : of? c = some name := by
  have hne {d : Char} (hd : d.isAlpha = false) : c ≠ d := by
    rintro rfl
    rw [h] at hd
    cases hd
  have hdigit : c.isDigit = false := by
    have hletter : (65 ≤ c.val.toNat ∧ c.val.toNat ≤ 90) ∨
        (97 ≤ c.val.toNat ∧ c.val.toNat ≤ 122) := by
      rcases (Bool.or_eq_true _ _).mp h with hupper | hlower
      · exact .inl (of_decide_eq_true hupper)
      · obtain ⟨hge, hle⟩ := (Bool.and_eq_true _ _).mp hlower
        exact .inr ⟨of_decide_eq_true hge, of_decide_eq_true hle⟩
    rw [Bool.eq_false_iff]
    intro hdigit
    obtain ⟨-, hle⟩ := (Bool.and_eq_true _ _).mp hdigit
    have hle : c.val.toNat ≤ 57 := of_decide_eq_true hle
    omega
  simp [of?, h, hdigit, hne (d := '-') rfl, hne (d := '"') rfl, hne (d := '\x7b') rfl,
    hne (d := '(') rfl]

/-- **The first character tells the form** of an expression. -/
theorem exists_chars_eq_cons (ctx : Bool) (e : Expr) :
    ∃ c cs, chars ctx e = c :: cs ∧ Opening.of? c = some (e.opening ctx) := by
  cases e with
  | int n as =>
    rcases toList_toString_int n with ⟨-, htext⟩ | ⟨-, htext⟩
    · obtain ⟨c, cs, hcs, hdigit⟩ := exists_toDigits_eq_cons n.toNat
      exact ⟨c, cs, htext.trans hcs, by simp [Opening.of?, hdigit, opening]⟩
    · exact ⟨'-', _, htext, rfl⟩
  | string s as => exact ⟨'"', _, by simp [chars, textWithin, quote]; rfl, rfl⟩
  | bytes b as => exact ⟨'0', _, by simp [chars, textWithin]; rfl, rfl⟩
  | seq xs as =>
    cases xs with
    | nil => exact ⟨'\x7b', ['\x7d'], by rw [chars, textWithin]; rfl, rfl⟩
    | cons x xs => exact ⟨'\x7b', _, chars_seq_cons x xs as, rfl⟩
  | app p xs as flag =>
    rw [chars_app, opening]
    split
    · exact ⟨'(', _, rfl, rfl⟩
    · obtain ⟨-, c, cs, hname, halpha⟩ := p.isWord_name
      exact ⟨c, _, by rw [bareChars, hname]; rfl, Opening.of?_of_isAlpha halpha⟩

/-- Texts that go on to the same characters start in the same way. -/
theorem opening_eq_of_append_eq (h : chars ctx e ++ r = chars ctx e' ++ s) :
    e.opening ctx = e'.opening ctx := by
  obtain ⟨c, cs, hcs, hopen⟩ := exists_chars_eq_cons ctx e
  obtain ⟨d, ds, hds, hopen'⟩ := exists_chars_eq_cons ctx e'
  rw [hcs, hds] at h
  obtain ⟨rfl, -⟩ := List.cons.inj h
  exact Option.some.inj (hopen.symm.trans hopen')

/-- An application starts with its name or with a parenthesis. -/
theorem opening_app {o : Opening} {p : Primitive} {xs : List Expr} {as : List String} {flag : Bool}
    (h : o = (app p xs as flag).opening ctx) : o = .parenthesis ∨ o = .name := by
  rw [opening] at h
  split at h
  · exact .inl h
  · exact .inr h

/-! ## How a text ends -/

/-- Whether an expression that is no argument ends where the characters start: an item of a sequence
or an application in parentheses, or all there is. -/
def EndsItem (cs : List Char) : Prop :=
  EndsWord cs ∧ ∀ c ds, cs = ' ' :: c :: ds → c = ';' ∨ c = '\x7d'

/-- Whether an expression ends where the characters start. -/
def Ends (asArgument : Bool) (cs : List Char) : Prop :=
  if asArgument then EndsWord cs else EndsItem cs

/-- Whether the annotations of an application end where the characters start. -/
def EndsAnnots (cs : List Char) : Prop :=
  EndsWord cs ∧ ∀ c ds, cs = ' ' :: c :: ds → isAnnotSign c = false

/-- Whether the items of a sequence end where the characters start. -/
def EndsItems (cs : List Char) : Prop := ∃ ds, cs = ' ' :: '\x7d' :: ds

theorem Ends.endsWord (h : Ends ctx r) : EndsWord r := by
  cases ctx
  · exact h.1
  · exact h

theorem endsWord_blank (cs : List Char) : EndsWord ([' '] ++ cs) := fun _ hc =>
  .inl (Option.some.inj hc).symm

theorem endsItem_separator (cs : List Char) : EndsItem ([' ', ';', ' '] ++ cs) := by
  refine ⟨endsWord_blank _, fun c ds heq => .inl ?_⟩
  exact (List.cons.inj (List.cons.inj heq).2).1.symm

theorem EndsItems.endsItem (h : EndsItems r) : EndsItem r := by
  obtain ⟨ds, rfl⟩ := h
  refine ⟨endsWord_blank _, fun c ds heq => .inr ?_⟩
  exact (List.cons.inj (List.cons.inj heq).2).1.symm

theorem endsItem_parenthesis (cs : List Char) : EndsItem (')' :: cs) := by
  refine ⟨fun _ hc => .inr (Option.some.inj hc).symm, fun c ds heq => ?_⟩
  cases heq

/-- No argument starts where an item ends. -/
theorem not_endsItem (x : Expr) (cs : List Char) : ¬EndsItem ([' '] ++ (chars true x ++ cs)) := by
  rintro ⟨-, hitem⟩
  obtain ⟨c, ds, hds, hopen⟩ := exists_chars_eq_cons true x
  rw [hds] at hitem
  rcases hitem c _ rfl with rfl | rfl <;> cases hopen

theorem not_endsItems (x : Expr) (cs : List Char) :
    ¬EndsItems ([' ', ';', ' '] ++ (chars false x ++ cs)) := by
  rintro ⟨ds, hds⟩
  cases hds

/-- No annotation starts where an argument does, or where an item ends. -/
theorem endsAnnots_separated {xs : List Expr} (hr : EndsItem r) :
    EndsAnnots (separated [' '] (chars true) xs ++ r) := by
  refine ⟨ends_separated_append endsWord_blank hr.1 xs, fun c ds heq => ?_⟩
  cases xs with
  | nil => rcases hr.2 c ds heq with rfl | rfl <;> rfl
  | cons x xs =>
    rw [separated_cons_append] at heq
    obtain ⟨d, es, hes, hopen⟩ := exists_chars_eq_cons true x
    rw [hes] at heq
    obtain rfl : d = c := (List.cons.inj (List.cons.inj heq).2).1
    rw [Bool.eq_false_iff]
    intro hsign
    simp only [isAnnotSign, Bool.or_eq_true, beq_iff_eq] at hsign
    rcases hsign with (rfl | rfl) | rfl <;> cases hopen

theorem not_endsAnnots {annot : String} (h : IsAnnotWord annot) (cs : List Char) :
    ¬EndsAnnots ([' '] ++ (annot.toList ++ cs)) := by
  rintro ⟨-, hannots⟩
  obtain ⟨hsign, -⟩ := h
  cases hchars : annot.toList with
  | nil =>
    rw [hchars] at hsign
    cases hsign
  | cons c ds =>
    rw [hchars] at hannots hsign
    rw [List.head?_cons, Option.any_some, hannots c _ rfl] at hsign
    cases hsign

/-! ## Reading -/

theorem isWord_int (n : Int) : IsWord (toString n).toList := by
  have hdigits (n : Nat) : IsWord (Nat.toDigits 10 n) := by
    intro c hc
    have hdigit := isDigit_of_mem_digits n c hc
    constructor
    · rintro rfl
      cases hdigit
    · rintro rfl
      cases hdigit
  rcases toList_toString_int n with ⟨-, htext⟩ | ⟨-, htext⟩
  · rw [htext]
    exact hdigits _
  · rw [htext]
    exact List.forall_mem_cons.mpr ⟨by decide, hdigits _⟩

theorem isWord_bytes (b : List UInt8) : IsWord ("0x" ++ Hex.encode b).toList := by
  have hdigit : ∀ d < 16, Hex.digit d ≠ ' ' ∧ Hex.digit d ≠ ')' := by decide
  have hbyte : ∀ byte ∈ b, IsWord (Hex.encodeByte byte) := by
    intro byte _
    have hlt := byte.toNat_lt
    rw [IsWord, Hex.encodeByte, List.forall_mem_cons, List.forall_mem_singleton]
    exact ⟨hdigit _ (by omega), hdigit _ (Nat.mod_lt _ (by decide))⟩
  have hencode : (Hex.encode b).toList = b.flatMap Hex.encodeByte := String.toList_ofList
  rw [String.toList_append, hencode]
  refine List.forall_mem_append.mpr ⟨?_, List.forall_mem_flatMap.mpr hbyte⟩
  show IsWord ['0', 'x']
  decide

/-- The text of bytes is no numeral. -/
theorem toList_int_ne_bytes (n : Int) (b : List UInt8) :
    (toString n).toList ≠ ("0x" ++ Hex.encode b).toList := by
  rw [String.toList_append]
  intro heq
  rcases toList_toString_int n with ⟨-, htext⟩ | ⟨-, htext⟩
  · rw [htext] at heq
    have hx : 'x'.isDigit = true := isDigit_of_mem_digits n.toNat 'x' (by rw [heq]; simp)
    cases hx
  · rw [htext] at heq
    cases heq

theorem eq_of_toString_int {m n : Int} (h : (toString m).toList = (toString n).toList) : m = n := by
  have hread := readInteger?_toString m
  rw [String.toList_inj.mp h, readInteger?_toString] at hread
  exact (Option.some.inj hread).symm

theorem eq_of_encode_bytes {b c : List UInt8}
    (h : ("0x" ++ Hex.encode b).toList = ("0x" ++ Hex.encode c).toList) : b = c := by
  have hencode : Hex.encode b = Hex.encode c := by
    rw [String.toList_append, String.toList_append] at h
    exact String.toList_inj.mp (List.append_cancel_left h)
  have hread := Hex.decode_encode b
  rw [hencode, Hex.decode_encode] at hread
  exact (Except.ok.inj hread).symm

/-- An application without parentheses is told by its text, if its arguments are. -/
theorem bareChars_append_inj {p q : Primitive} {xs ys : List Expr} {as bs : List String}
    (has : ∀ a ∈ as, IsAnnotWord a) (hbs : ∀ b ∈ bs, IsAnnotWord b)
    (hxs : ∀ x ∈ xs, x.IsNotation ∧ Delimits (Ends true) IsNotation (chars true) unmarked x)
    (hys : ∀ y ∈ ys, y.IsNotation) (hr : EndsItem r) (hs : EndsItem s)
    (h : bareChars p xs as ++ r = bareChars q ys bs ++ s) :
    p = q ∧ as = bs ∧ xs.map unmarked = ys.map unmarked ∧ r = s := by
  have hannots (a : String) (ha : IsAnnotWord a) :
      IsAnnotWord a ∧ Delimits EndsWord IsAnnotWord String.toList id a := by
    refine ⟨ha, fun b t u hb ht hu heq => ?_⟩
    obtain ⟨hword, hrest⟩ := word_append_inj ha.2 hb.2 ht hu heq
    exact ⟨String.toList_inj.mp hword, hrest⟩
  rw [bareChars, bareChars, List.append_assoc, List.append_assoc, List.append_assoc,
    List.append_assoc] at h
  have hxsr := @endsAnnots_separated r xs hr
  have hyss := @endsAnnots_separated s ys hs
  obtain ⟨hname, h⟩ := word_append_inj p.isWord_name.1 q.isWord_name.1
    (ends_separated_append endsWord_blank hxsr.1 as)
    (ends_separated_append endsWord_blank hyss.1 bs) h
  obtain ⟨has', h⟩ := Delimits.separated (fun a ha => hannots a (has a ha)) hbs endsWord_blank
    (fun _ hcs => hcs.1) (fun a cs ha => not_endsAnnots ha cs) hxsr hyss h
  obtain ⟨hxs', hrest⟩ := Delimits.separated hxs hys endsWord_blank (fun _ hcs => hcs.1)
    (fun x cs _ => not_endsItem x cs) hr hs h
  rw [List.map_id, List.map_id] at has'
  exact ⟨Primitive.name_injective (String.toList_inj.mp hname), has', hxs', hrest⟩

/-- A sequence is told by its text, if its items are. -/
theorem seq_append_inj {xs ys : List Expr} {as bs : List String}
    (hxs : ∀ x ∈ xs, x.IsNotation ∧ Delimits (Ends false) IsNotation (chars false) unmarked x)
    (hys : ∀ y ∈ ys, y.IsNotation) (h : chars ctx (seq xs as) ++ r = chars ctx (seq ys bs) ++ s) :
    xs.map unmarked = ys.map unmarked ∧ r = s := by
  have hnil (as : List String) : chars ctx (seq [] as) = ['\x7b', '\x7d'] := by
    rw [chars, textWithin]
    rfl
  cases xs with
  | nil =>
    cases ys with
    | nil =>
      rw [hnil, hnil] at h
      exact ⟨rfl, List.append_cancel_left h⟩
    | cons y ys =>
      rw [hnil, chars_seq_cons] at h
      cases h
  | cons x xs =>
    cases ys with
    | nil =>
      rw [hnil, chars_seq_cons] at h
      cases h
    | cons y ys =>
      rw [List.forall_mem_cons] at hxs hys
      rw [chars_seq_cons, chars_seq_cons] at h
      simp only [List.cons_append, List.append_assoc, List.cons_inj_right] at h
      have hends (cs : List Char) : EndsItems ([' ', '\x7d'] ++ cs) := ⟨cs, rfl⟩
      obtain ⟨hx, hitems⟩ := hxs.1.2 y _ _ hys.1
        (ends_separated_append endsItem_separator (hends r).endsItem xs)
        (ends_separated_append endsItem_separator (hends s).endsItem ys) h
      obtain ⟨hxs', hrest⟩ := Delimits.separated hxs.2 hys.2 endsItem_separator
        (fun _ hcs => hcs.endsItem) (fun x cs _ => not_endsItems x cs) (hends r) (hends s) hitems
      rw [List.map_cons, List.map_cons, hx, hxs']
      exact ⟨rfl, List.append_cancel_left hrest⟩

/-- An application is told by its text, in parentheses or without them. -/
theorem app_append_inj {p q : Primitive} {xs ys : List Expr} {as bs : List String}
    {flag flag' : Bool} (he : (app p xs as flag).IsNotation) (he' : (app q ys bs flag').IsNotation)
    (hxs : ∀ x ∈ xs, Delimits (Ends true) IsNotation (chars true) unmarked x)
    (hr : Ends ctx r) (hs : Ends ctx s)
    (h : chars ctx (app p xs as flag) ++ r = chars ctx (app q ys bs flag') ++ s) :
    unmarked (app p xs as flag) = unmarked (app q ys bs flag') ∧ r = s := by
  have hbare {t u : List Char} (ht : EndsItem t) (hu : EndsItem u)
      (heq : bareChars p xs as ++ t = bareChars q ys bs ++ u) :
      unmarked (app p xs as flag) = unmarked (app q ys bs flag') ∧ t = u := by
    obtain ⟨hname, hannots, hargs, hrest⟩ := @bareChars_append_inj t u p q xs ys as bs
      (fun a ha => he.isAnnotWord ha) (fun b hb => he'.isAnnotWord hb)
      (fun x hx => ⟨he.of_mem_children hx, hxs x hx⟩)
      (fun y hy => he'.of_mem_children hy) ht hu heq
    refine ⟨?_, hrest⟩
    rw [unmarked, unmarked, unmarkedAll_eq_map, unmarkedAll_eq_map, hname, hannots, hargs]
  have hopen := opening_eq_of_append_eq h
  rw [chars_app, chars_app] at h
  rw [opening, opening] at hopen
  cases hwrap : isWrapped ctx xs as <;> cases hwrap' : isWrapped ctx ys bs <;>
    rw [hwrap, hwrap'] at h hopen
  case true.true =>
    simp only [if_true, List.cons_append, List.append_assoc, List.cons_inj_right] at h
    obtain ⟨heq, hrest⟩ := hbare (endsItem_parenthesis r) (endsItem_parenthesis s) h
    exact ⟨heq, (List.cons.inj hrest).2⟩
  case false.false =>
    cases ctx with
    | false => exact hbare hr hs h
    | true =>
      simp only [isWrapped, Bool.true_and, Bool.not_eq_false', Bool.and_eq_true,
        List.isEmpty_iff] at hwrap hwrap'
      obtain ⟨rfl, rfl⟩ := hwrap
      obtain ⟨rfl, rfl⟩ := hwrap'
      obtain ⟨hname, hrest⟩ := word_append_inj p.isWord_name.1 q.isWord_name.1 hr hs
        (by simpa [bareChars, separated] using h)
      obtain rfl := Primitive.name_injective (String.toList_inj.mp hname)
      exact ⟨rfl, hrest⟩
  all_goals cases hopen

/-- **An expression is told by its text**, whatever follows: up to the packed flags there is one
expression whose text goes on to the same characters. -/
theorem delimits_chars (he : e.IsNotation) :
    Delimits (Ends ctx) IsNotation (chars ctx) unmarked e := by
  induction e generalizing ctx with
  | int n as =>
    intro y r s hy hr hs h
    have hopen := opening_eq_of_append_eq h
    obtain rfl : as = [] := he.annots_eq_nil rfl
    cases y with
    | int m bs =>
      obtain rfl : bs = [] := hy.annots_eq_nil rfl
      obtain ⟨hword, hrest⟩ :=
        word_append_inj (isWord_int n) (isWord_int m) hr.endsWord hs.endsWord h
      exact ⟨congrArg (int · []) (eq_of_toString_int hword), hrest⟩
    | bytes c bs =>
      obtain ⟨hword, -⟩ := word_append_inj (isWord_int n) (isWord_bytes c) hr.endsWord hs.endsWord h
      exact absurd hword (toList_int_ne_bytes n c)
    | string | seq => cases hopen
    | app => rcases opening_app hopen with heq | heq <;> cases heq
  | bytes b as =>
    intro y r s hy hr hs h
    have hopen := opening_eq_of_append_eq h
    obtain rfl : as = [] := he.annots_eq_nil rfl
    cases y with
    | int m bs =>
      obtain ⟨hword, -⟩ := word_append_inj (isWord_bytes b) (isWord_int m) hr.endsWord hs.endsWord h
      exact absurd hword.symm (toList_int_ne_bytes m b)
    | bytes c bs =>
      obtain rfl : bs = [] := hy.annots_eq_nil rfl
      obtain ⟨hword, hrest⟩ :=
        word_append_inj (isWord_bytes b) (isWord_bytes c) hr.endsWord hs.endsWord h
      exact ⟨congrArg (bytes · []) (eq_of_encode_bytes hword), hrest⟩
    | string | seq => cases hopen
    | app => rcases opening_app hopen with heq | heq <;> cases heq
  | string t as =>
    intro y r s hy hr hs h
    have hopen := opening_eq_of_append_eq h
    obtain rfl : as = [] := he.annots_eq_nil rfl
    cases y with
    | string u bs =>
      obtain rfl : bs = [] := hy.annots_eq_nil rfl
      obtain ⟨rfl, hrest⟩ := quote_append_inj h
      exact ⟨rfl, hrest⟩
    | int | bytes | seq => cases hopen
    | app => rcases opening_app hopen with heq | heq <;> cases heq
  | seq xs as ih =>
    intro y r s hy hr hs h
    have hopen := opening_eq_of_append_eq h
    obtain rfl : as = [] := he.annots_eq_nil rfl
    cases y with
    | seq ys bs =>
      obtain rfl : bs = [] := hy.annots_eq_nil rfl
      obtain ⟨hitems, hrest⟩ := seq_append_inj
        (fun x hx => ⟨he.of_mem_children hx, ih x hx (he.of_mem_children hx)⟩)
        (fun y hmem => hy.of_mem_children hmem) h
      refine ⟨?_, hrest⟩
      rw [unmarked, unmarked, unmarkedAll_eq_map, unmarkedAll_eq_map]
      exact congrArg (seq · []) hitems
    | int | bytes | string => cases hopen
    | app => rcases opening_app hopen with heq | heq <;> cases heq
  | app p xs as flag ih =>
    intro y r s hy hr hs h
    have hopen := opening_eq_of_append_eq h
    cases y with
    | app q ys bs flag' =>
      exact app_append_inj he hy (fun x hx => ih x hx (he.of_mem_children hx)) hr hs h
    | int | bytes | string | seq =>
      rcases opening_app hopen.symm with heq | heq <;> cases heq

/-- The packed flags are not written. -/
theorem chars_unmarked (ctx : Bool) (e : Expr) : chars ctx e.unmarked = chars ctx e := by
  induction e generalizing ctx with
  | int | string | bytes => rfl
  | seq xs as ih =>
    cases xs with
    | nil => rfl
    | cons x xs =>
      rw [List.forall_mem_cons] at ih
      rw [unmarked, unmarkedAll_eq_map, List.map_cons, chars_seq_cons, chars_seq_cons, ih.1,
        separated_map]
      rw [show separated [' ', ';', ' '] (chars false ∘ unmarked) xs =
        separated [' ', ';', ' '] (chars false) xs from
          List.flatMap_congr fun x hx => congrArg _ (ih.2 x hx false)]
  | app p xs as flag ih =>
    have hargs : bareChars p (xs.map unmarked) as = bareChars p xs as := by
      rw [bareChars, bareChars, separated_map]
      rw [show separated [' '] (chars true ∘ unmarked) xs = separated [' '] (chars true) xs from
        List.flatMap_congr fun x hx => congrArg _ (ih x hx true)]
    rw [unmarked, unmarkedAll_eq_map, chars_app, chars_app, hargs, isWrapped, isWrapped,
      List.isEmpty_map]

/-- **Michelson text has one reading**: two expressions whose text tells everything but the packed
flags have one text exactly if they are equal. -/
theorem text_eq_text_iff (p q : Expr) (hp : p.IsNotation) (hq : q.IsNotation) :
    p.text = q.text ↔ (p == q) = true := by
  have hends : EndsItem [] := ⟨fun _ hc => (nomatch hc), fun _ _ heq => (nomatch heq)⟩
  rw [show (p == q) = same p q from rfl, same_iff, ← String.toList_inj]
  constructor
  · intro h
    exact (@delimits_chars p false hp q [] [] hq hends hends (congrArg (· ++ []) h)).1
  · intro h
    have hchars := congrArg (chars false) h
    rwa [chars_unmarked, chars_unmarked] at hchars

/-- Pairs that are nested to the left and to the right have different texts, and the packed flag of
a pair is not written. -/
theorem text_eq_text_iff_pairs :
    let left : Expr := app (.data .pair)
      [app (.data .pair) [string "a\" )", int (-1)] ["%x;"], seq [bytes [10], int 0]]
    let right : Expr := app (.data .pair)
      [string "a\" )", app (.data .pair) [int (-1), seq [bytes [10], int 0]] ["%x;"]]
    left.text ≠ right.text ∧ (left == left.markPacked) = true := by
  intro left right
  have hleft : left.IsNotation := by decide
  have hmarked : left.markPacked.IsNotation := by decide
  have hright : right.IsNotation := by decide
  constructor
  · intro h
    exact absurd ((text_eq_text_iff left right hleft hright).mp h) (by decide)
  · exact (text_eq_text_iff left left.markPacked hleft hmarked).mp (by rfl)

end Expr

end Michelson
