import Mathlib.Tactic.MkIffOfInductiveProp
import Michelson.Typing.Conformance

/-!
# Values of a type

Which values a type has, by recursion on the type itself: no typedef, no path and no address of a
branch takes part in it. Annotations and packed flags of the value are not looked at.

A value may be read more or less strictly. The check reads longer pairs and sequences as combs,
does not look into options, and takes any sequence for a sapling state; the values that are built
from host values keep to the strict reading.

## Main definitions

* `Reading`: how strictly a value is read
* `Expr.HasType`: whether a value is one of a type
* `Expr.HasCombType`: whether a value is one of the comb of pairs with the given arguments

## Main results

* `Expr.HasType.checked_of_strict`: a value in the strict reading is one for the check
-/

namespace Michelson

/-- How strictly a value is read. -/
structure Reading where
  /-- Longer pairs and sequences are combs as well. -/
  anyLayout : Prop
  /-- What an option holds has to be a value of its type. -/
  typedOptions : Prop
  /-- Sequences with items are sapling states as well. -/
  anyState : Prop

namespace Reading

/-- The reading of the check. -/
def checked : Reading := ⟨True, False, True⟩

/-- The reading in which every part of a value has its type and its plainest form. -/
def strict : Reading := ⟨False, True, False⟩

end Reading

namespace Expr

/-- Whether a value is a comb with the two given sides. The right side of a longer comb is the
comb of what remains without the first component. -/
inductive SplitsInto (r : Reading) : Expr → Expr → Expr → Prop
  | pair {x y annots flag} : SplitsInto r (.app (.data .pair) [x, y] annots flag) x y
  | longerPair {x y z rest annots flag} : r.anyLayout →
    SplitsInto r (.app (.data .pair) (x :: y :: z :: rest) annots flag) x
      (.app (.data .pair) (y :: z :: rest))
  | items {x y annots} : r.anyLayout → SplitsInto r (.seq [x, y] annots) x y
  | moreItems {x y z rest annots} : r.anyLayout →
    SplitsInto r (.seq (x :: y :: z :: rest) annots) x (.seq (y :: z :: rest))

/-- Whether a value is a comb whose sides are as asked. -/
def IsPairOf (r : Reading) (Left Right : Expr → Prop) (value : Expr) : Prop :=
  ∃ x y, SplitsInto r value x y ∧ Left x ∧ Right y

/-- Whether a value is an alternative whose payload is as asked. -/
@[mk_iff]
inductive IsEitherOf (Left Right : Expr → Prop) : Expr → Prop
  | left {x annots flag} : Left x → IsEitherOf Left Right (.app (.data .left) [x] annots flag)
  | right {x annots flag} : Right x → IsEitherOf Left Right (.app (.data .right) [x] annots flag)

/-- Whether a value is an option that holds nothing or else what is asked. -/
@[mk_iff]
inductive IsOptionOf (Held : Expr → Prop) : Expr → Prop
  | none {annots flag} : IsOptionOf Held (.app (.data .none) [] annots flag)
  | some {x annots flag} : Held x → IsOptionOf Held (.app (.data .some) [x] annots flag)

/-- Whether a value is a sequence whose items are as asked. -/
@[mk_iff]
inductive IsSequenceOf (Item : Expr → Prop) : Expr → Prop
  | seq {items annots} : (∀ x ∈ items, Item x) → IsSequenceOf Item (.seq items annots)

/-- Whether a value is an entry whose key and value are as asked. -/
@[mk_iff]
inductive IsEntryOf (Key Value : Expr → Prop) : Expr → Prop
  | elt {k v annots flag} : Key k → Value v →
    IsEntryOf Key Value (.app (.data .elt) [k, v] annots flag)

/-- Whether a value is a single one of a type without components: a literal of a kind that the
type takes, a truth value or the unit. -/
@[mk_iff]
inductive IsScalarOf (c : TypeConstructor) : Expr → Prop
  | int {n annots} : c.takesInt → IsScalarOf c (.int n annots)
  | string {s annots} : c.takesText → IsScalarOf c (.string s annots)
  | bytes {b annots} : c.takesBytes → IsScalarOf c (.bytes b annots)
  | true {annots flag} : c = .bool → IsScalarOf c (.app (.data .true) [] annots flag)
  | false {annots flag} : c = .bool → IsScalarOf c (.app (.data .false) [] annots flag)
  | unit {annots flag} : c = .unit → IsScalarOf c (.app (.data .unit) [] annots flag)

mutual
/-- **Whether a value is one of a type**, in a given reading. -/
def HasType (r : Reading) : Expr → Expr → Prop
  | .app (.type .pair) args _ _ => HasCombType r args
  | .app (.type .or) [left, right] _ _ => IsEitherOf (HasType r left) (HasType r right)
  | .app (.type .option) [] _ _ => IsOptionOf fun _ => True
  | .app (.type .option) [inner] _ _ => IsOptionOf fun x => r.typedOptions → HasType r inner x
  | .app (.type .list) [] _ _ | .app (.type .set) [] _ _ => IsSequenceOf fun _ => True
  | .app (.type .list) [item] _ _ | .app (.type .set) [item] _ _ => IsSequenceOf (HasType r item)
  | .app (.type .map) [key, value] _ _ => IsSequenceOf (IsEntryOf (HasType r key) (HasType r value))
  | .app (.type .bigMap) [key, value] _ _ => fun v =>
    (∃ n annots, v = .int n annots) ∨
      IsSequenceOf (IsEntryOf (HasType r key) (HasType r value)) v
  | .app (.type .lambda) _ _ _ => fun v =>
    IsSequenceOf (fun _ => True) v ∨ v.applies (.data .lambdaRec)
  | .app (.type .ticket) _ _ _ => fun v =>
    ∃ x y rest annots flag, v = .app (.data .pair) (x :: y :: rest) annots flag
  | .app (.type .saplingState) _ _ _ => fun v =>
    (∃ n annots, v = .int n annots) ∨ IsSequenceOf (fun _ => r.anyState) v
  | .app (.type c) _ _ _ => IsScalarOf c
  | _ => fun _ => False
/-- Whether a value is one of the comb of pairs whose arguments these are. -/
def HasCombType (r : Reading) : List Expr → Expr → Prop
  | [first, second] => IsPairOf r (HasType r first) (HasType r second)
  | first :: second :: third :: rest =>
    IsPairOf r (HasType r first) (HasCombType r (second :: third :: rest))
  | _ => fun _ => False
end

/-- In the strict reading a comb is a pair of its two sides. -/
theorem isPairOf_strict_iff {P Q : Expr → Prop} {v : Expr} :
    v.IsPairOf .strict P Q ↔
      ∃ x y annots flag, v = .app (.data .pair) [x, y] annots flag ∧ P x ∧ Q y := by
  constructor
  · rintro ⟨x, y, hsplit, hx, hy⟩
    cases hsplit with
    | pair => exact ⟨x, y, _, _, rfl, hx, hy⟩
    | longerPair h | items h | moreItems h => exact h.elim
  · rintro ⟨x, y, annots, flag, rfl, hx, hy⟩
    exact ⟨x, y, .pair, hx, hy⟩

/-! ## Weaker readings -/

section Weaker

variable {P Q P' Q' : Expr → Prop} {v : Expr}

theorem IsPairOf.checked_of_strict (h : v.IsPairOf .strict P Q) (hP : ∀ x, P x → P' x)
    (hQ : ∀ x, Q x → Q' x) : v.IsPairOf .checked P' Q' := by
  obtain ⟨x, y, annots, flag, rfl, hx, hy⟩ := isPairOf_strict_iff.mp h
  exact ⟨x, y, .pair, hP x hx, hQ y hy⟩

theorem IsEitherOf.imp (h : v.IsEitherOf P Q) (hP : ∀ x, P x → P' x) (hQ : ∀ x, Q x → Q' x) :
    v.IsEitherOf P' Q' := by
  cases h with
  | left hx => exact .left (hP _ hx)
  | right hx => exact .right (hQ _ hx)

theorem IsOptionOf.imp (h : v.IsOptionOf P) (hP : ∀ x, P x → P' x) : v.IsOptionOf P' := by
  cases h with
  | none => exact .none
  | some hx => exact .some (hP _ hx)

theorem IsSequenceOf.imp (h : v.IsSequenceOf P) (hP : ∀ x, P x → P' x) : v.IsSequenceOf P' := by
  cases h with
  | seq hxs => exact .seq fun x hx => hP x (hxs x hx)

theorem IsEntryOf.imp (h : v.IsEntryOf P Q) (hP : ∀ x, P x → P' x) (hQ : ∀ x, Q x → Q' x) :
    v.IsEntryOf P' Q' := by
  cases h with
  | elt hk hw => exact .elt (hP _ hk) (hQ _ hw)

/-- **A value in the strict reading is one for the check.** -/
theorem HasType.checked_of_strict {e v : Expr} (h : e.HasType .strict v) :
    e.HasType .checked v := by
  refine HasType.induct (fun e => ∀ v, e.HasType .strict v → e.HasType .checked v)
    (fun args => ∀ v, HasCombType .strict args v → HasCombType .checked args v)
    ?pair ?or ?bareOption ?option ?bareList ?bareSet ?list ?set ?map ?bigMap ?lambda ?ticket
    ?saplingState ?scalar ?noType ?two ?more ?few e v h
  case pair =>
    intro args annots flag ih v h
    rw [HasType] at h ⊢
    exact ih v h
  case or =>
    intro left right annots flag ihl ihr v h
    rw [HasType] at h ⊢
    exact h.imp ihl ihr
  case option =>
    intro inner annots flag _ v h
    rw [HasType] at h ⊢
    exact h.imp fun x _ hfalse => hfalse.elim
  case list | set =>
    intro item annots flag ih v h
    rw [HasType] at h ⊢
    exact h.imp ih
  case map =>
    intro key value annots flag ihk ihv v h
    rw [HasType] at h ⊢
    exact h.imp fun x hx => hx.imp ihk ihv
  case bigMap =>
    intro key value annots flag ihk ihv v h
    rw [HasType] at h ⊢
    exact h.imp_right fun hseq => hseq.imp fun x hx => hx.imp ihk ihv
  case saplingState =>
    intro args annots flag v h
    rw [HasType] at h ⊢
    exact h.imp_right fun hseq => hseq.imp fun _ hfalse => hfalse.elim
  case scalar =>
    intros
    simp_all [HasType]
  case two =>
    intro first second ihf ihs v h
    rw [HasCombType] at h ⊢
    exact h.checked_of_strict ihf ihs
  case more =>
    intro first second third rest ihf ihs v h
    rw [HasCombType] at h ⊢
    exact h.checked_of_strict ihf ihs
  case bareOption | bareList | bareSet | lambda | ticket =>
    intros
    simp_all [HasType]
  case noType | few =>
    intros
    simp_all [HasType, HasCombType]

end Weaker

end Expr

end Michelson
