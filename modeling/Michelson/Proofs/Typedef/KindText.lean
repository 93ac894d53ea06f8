import Mathlib.Data.List.TakeWhile
import Michelson.Proofs.Expr.JsonForm
import Michelson.Proofs.Text.Spelling
import Michelson.Typedef.Kind

/-!
# The texts of kinds

Every kind is read back from its text, and nothing is read as a kind but its text, except that the
size of the memos of a sapling kind is read as any number is: a plus sign and zeros may stand in
front of it. So two texts of one kind do not differ in anything else.

## Main definitions

* `Kind.textWith`: the text of a kind with something in front of the size of its memos
* `Kind.IsOfType`: kinds that a type can have

## Main results

* `Kind.ofText?_textWith`, `Kind.ofText?_text`: kinds are read back from their texts
* `Kind.exists_textWith_of_ofText?`: what is read as a kind
* `Kind.textWith_of_ofText?`: all texts of a kind
-/

namespace Michelson

/-- A primitive that is found by a name has that name. -/
theorem Primitive.name_of_ofName? {name : String} {p : Primitive} (h : ofName? name = some p) :
    p.name = name := by
  have hname := List.find?_some h
  exact beq_iff_eq.mp hname

namespace Typedef.Kind

open Text (IsLead)

variable {text : String} {kind : Kind}

/-- No name of a primitive has a parenthesis in it, and none is that of a struct or union. -/
theorem plain_name (p : Primitive) :
    (∀ c ∈ p.name.toList, c ≠ '(') ∧ p.name ≠ "struct" ∧ p.name ≠ "union" := by
  have hall : Primitive.all.all (fun p => p.name.toList.all (· != '(') && p.name != "struct" &&
      p.name != "union") = true := by
    decide +kernel
  simpa [and_assoc] using List.all_eq_true.mp hall p (Primitive.mem_all p)

/-- The text before the first parenthesis, and what follows it. -/
theorem span_parenthesis {front : List Char} (hfront : ∀ c ∈ front, c ≠ '(') (rest : List Char) :
    (front ++ '(' :: rest).takeWhile (· ≠ '(') = front ∧
      (front ++ '(' :: rest).dropWhile (· ≠ '(') = '(' :: rest := by
  have hfront : ∀ c ∈ front, decide (c ≠ '(') = true := fun c hc => decide_eq_true (hfront c hc)
  rw [List.takeWhile_append_of_pos hfront, List.dropWhile_append_of_pos hfront]
  simp

theorem beforeClosing?_eq_some_iff {cs : List Char} {memo : String} :
    beforeClosing? cs = some memo ↔ cs = memo.toList ++ [')'] := by
  rw [beforeClosing?, Option.ite_none_right_eq_some]
  constructor
  · rintro ⟨hlast, ⟨⟩⟩
    rw [String.toList_ofList, List.dropLast_append_getLast? _ hlast]
  · rintro rfl
    exact ⟨List.getLast?_concat, by rw [List.dropLast_concat, String.ofList_toList]⟩

/-- **The text of a kind** with something in front of the size of its memos, if it has one. -/
def textWith (lead : String) : Kind → String
  | sapling p size => p.name ++ "(" ++ (lead ++ toString size.toNat) ++ ")"
  | kind => kind.text

theorem textWith_empty (kind : Kind) : kind.textWith "" = kind.text := by
  cases kind with
  | struct | union | type => rfl
  | sapling p size => rw [textWith, String.empty_append, text]

theorem toList_textWith_sapling (p : Primitive) (size : UInt64) (lead : String) :
    ((sapling p size).textWith lead).toList =
      p.name.toList ++ '(' :: ((lead ++ toString size.toNat).toList ++ [')']) := by
  simp only [textWith, String.toList_append, List.append_assoc]
  rfl

/-! ## From kinds to texts and back -/

theorem ofText?_type (c : TypeConstructor) : ofText? (Primitive.type c).name = some (type c) := by
  obtain ⟨hchars, hstruct, hunion⟩ := plain_name (.type c)
  have hdrop : (Primitive.type c).name.toList.dropWhile (· ≠ '(') = [] :=
    List.dropWhile_eq_nil_iff.mpr fun x hx => decide_eq_true (hchars x hx)
  rw [ofText?, if_neg hstruct, if_neg hunion]
  simp only [hdrop, Primitive.ofName?_name]

theorem ofText?_sapling (p : Primitive) (size : UInt64) {lead : String} (hlead : IsLead lead) :
    ofText? ((sapling p size).textWith lead) = some (sapling p size) := by
  have htext := toList_textWith_sapling p size lead
  obtain ⟨htake, hdrop⟩ :=
    span_parenthesis (plain_name p).1 ((lead ++ toString size.toNat).toList ++ [')'])
  have hclosing := beforeClosing?_eq_some_iff.mpr
    (rfl : (lead ++ toString size.toNat).toList ++ [')'] = _)
  have hsize : Text.readUnsigned? (lead ++ toString size.toNat) = some size :=
    Text.readUnsigned?_eq_some_iff.mpr ⟨lead, hlead, rfl⟩
  have hne (s : String) (hs : '(' ∉ s.toList) : (sapling p size).textWith lead ≠ s := by
    rintro rfl
    exact hs (htext ▸ by simp)
  rw [ofText?, if_neg (hne _ (by decide)), if_neg (hne _ (by decide))]
  simp only [htext, hdrop, htake, String.ofList_toList, Primitive.ofName?_name, hclosing, bind,
    Option.bind, hsize]
  rfl

/-- **A kind is read back** from its text, with plus sign and zeros or without. -/
theorem ofText?_textWith {lead : String} (hlead : IsLead lead) (kind : Kind) :
    ofText? (kind.textWith lead) = some kind := by
  cases kind with
  | struct => rfl
  | union => rfl
  | type c => exact ofText?_type c
  | sapling p size => exact ofText?_sapling p size hlead

theorem ofText?_text (kind : Kind) : ofText? kind.text = some kind := by
  rw [← textWith_empty]
  exact ofText?_textWith Text.isLead_empty kind

/-- **Nothing else is read as a kind** than its text, with plus sign and zeros or without. -/
theorem exists_textWith_of_ofText? (h : ofText? text = some kind) :
    ∃ lead, IsLead lead ∧ text = kind.textWith lead := by
  rw [ofText?] at h
  split at h
  next hstruct =>
    cases h
    exact ⟨"", Text.isLead_empty, hstruct⟩
  next =>
    split at h
    next hunion =>
      cases h
      exact ⟨"", Text.isLead_empty, hunion⟩
    next =>
      cases hdrop : text.toList.dropWhile (· ≠ '(') with
      | nil =>
        simp only [hdrop] at h
        split at h
        next c hname =>
          cases h
          exact ⟨"", Text.isLead_empty, (Primitive.name_of_ofName? hname).symm⟩
        next => cases h
      | cons c rest =>
        simp only [hdrop] at h
        obtain ⟨p, hp, h⟩ := Option.bind_eq_some_iff.mp h
        obtain ⟨memo, hmemo, h⟩ := Option.bind_eq_some_iff.mp h
        obtain ⟨size, hsize, h⟩ := Option.bind_eq_some_iff.mp h
        cases h
        obtain ⟨lead, hlead, rfl⟩ := Text.readUnsigned?_eq_some_iff.mp hsize
        obtain rfl : c = '(' := by
          have hhead := List.head?_dropWhile_not (fun c : Char => decide (c ≠ '(')) text.toList
          rw [hdrop] at hhead
          simpa using hhead
        refine ⟨lead, hlead, String.toList_inj.mp ?_⟩
        rw [toList_textWith_sapling, Primitive.name_of_ofName? hp, String.toList_ofList,
          ← beforeClosing?_eq_some_iff.mp hmemo, ← hdrop, List.takeWhile_append_dropWhile]

/-! ## All texts of a kind -/

/-- Whether a type can have the kind: of the primitives, only the sapling ones have memos. -/
def IsOfType : Kind → Prop
  | sapling p _ => p = .type .saplingState ∨ p = .type .saplingTransaction ∨
      p = .type .saplingTransactionDeprecated
  | _ => True

/-- **Nothing is read as a kind but what the kind is written as.** What is read is a struct, a
union, a type primitive with its name for the text, or a primitive with a size of memos; and the
text that it was read from is its own, but for a plus sign and zeros in front of the size. A kind
that a type can have is read from each of these texts. -/
theorem textWith_of_ofText? (text : String) (kind : Kind) :
    (ofText? text = some kind →
      (kind = struct ∨ kind = union ∨
        (∃ p : Primitive, p.isType = true ∧ kind.head? = some p ∧ text = p.name) ∨
        ∃ p size, kind = sapling p size) ∧
      ∃ lead, IsLead lead ∧ text = kind.textWith lead) ∧
    (kind.IsOfType →
      (ofText? text = some kind ↔ ∃ lead, IsLead lead ∧ text = kind.textWith lead)) := by
  refine ⟨fun h => ?_, fun _ => ⟨exists_textWith_of_ofText?, ?_⟩⟩
  · obtain ⟨lead, hlead, htext⟩ := exists_textWith_of_ofText? h
    refine ⟨?_, lead, hlead, htext⟩
    cases kind with
    | struct => exact .inl rfl
    | union => exact .inr (.inl rfl)
    | type c => exact .inr (.inr (.inl ⟨.type c, rfl, rfl, htext⟩))
    | sapling p size => exact .inr (.inr (.inr ⟨p, size, rfl⟩))
  · rintro ⟨lead, hlead, rfl⟩
    exact ofText?_textWith hlead kind

theorem textWith_of_ofText?_transaction :
    ofText? "sapling_transaction(+0016)" = some (sapling (.type .saplingTransaction) 16) ∧
    (sapling (.type .saplingTransaction) 16).IsOfType ∧
    (∃ lead, IsLead lead ∧
      "sapling_transaction(+0016)" = (sapling (.type .saplingTransaction) 16).textWith lead) ∧
    ofText? "sapling_transaction(016)" = some (sapling (.type .saplingTransaction) 16) := by
  have htype : (sapling (.type .saplingTransaction) 16).IsOfType := .inr (.inl rfl)
  obtain ⟨hkind, htexts⟩ :=
    textWith_of_ofText? "sapling_transaction(+0016)" (sapling (.type .saplingTransaction) 16)
  have hread := (htexts htype).mpr ⟨"+00", ⟨2, .inr rfl⟩, rfl⟩
  obtain ⟨-, hlead⟩ := hkind hread
  obtain ⟨-, htexts'⟩ :=
    textWith_of_ofText? "sapling_transaction(016)" (sapling (.type .saplingTransaction) 16)
  exact ⟨hread, htype, hlead, (htexts' htype).mpr ⟨"0", ⟨1, .inl rfl⟩, rfl⟩⟩

/-- Two texts of one kind: a plus sign in front of a size is read, but not written. -/
theorem text_ne_of_plusSign :
    ofText? "sapling_state(+8)" = some (sapling (.type .saplingState) 8) ∧
    ofText? "sapling_state(8)" = some (sapling (.type .saplingState) 8) ∧
    (sapling (.type .saplingState) 8).text ≠ "sapling_state(+8)" :=
  have hplus : IsLead "+" := ⟨0, .inr rfl⟩
  ⟨ofText?_textWith hplus (sapling (.type .saplingState) 8),
    ofText?_text (sapling (.type .saplingState) 8), by decide⟩

end Typedef.Kind

end Michelson
