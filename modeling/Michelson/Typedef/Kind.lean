import Michelson.Primitive
import Michelson.Text.Numeral

/-!
# Kinds of typedefs

A typedef describes a struct, which stands for a comb of pairs, a union, which stands for a nest
of alternatives, or a type of another constructor. Sapling types may carry the size of their
memos.

## Main definitions

* `Typedef.Kind`: the kinds
* `Typedef.Kind.head?`: the primitive of a kind
* `Typedef.Kind.text`, `Typedef.Kind.ofText?`: kinds as text
-/

namespace Michelson.Typedef

/-- **What a typedef describes.** -/
inductive Kind where
  /-- A comb of pairs. -/
  | struct
  /-- A nest of alternatives. -/
  | union
  /-- A type of a constructor. -/
  | type (constructor : TypeConstructor)
  /-- A sapling state or transaction with the size of its memos. -/
  | sapling (head : Primitive) (memoSize : UInt64)
  deriving DecidableEq, Repr

namespace Kind

/-- The primitive of a kind; structs and unions have none. -/
def head? : Kind → Option Primitive
  | type c => some (.type c)
  | sapling p _ => some p
  | struct | union => none

/-- A kind of a type constructor is that constructor, with a memo size or without. -/
theorem head?_eq_type_iff {kind : Kind} {c : TypeConstructor} :
    kind.head? = some (.type c) ↔ kind = type c ∨ ∃ size, kind = sapling (.type c) size := by
  cases kind <;> simp [head?]

/-- Whether a kind has the primitive. -/
def has (p : Primitive) (kind : Kind) : Bool := kind.head? == some p

/-- Whether a kind has the type constructor, with a memo size or without. -/
def isType (c : TypeConstructor) (kind : Kind) : Bool := kind.has (.type c)

theorem isType_iff {kind : Kind} {c : TypeConstructor} :
    kind.isType c = true ↔ kind.head? = some (.type c) := by
  rw [isType, has, beq_iff_eq]

/-- The text of a kind. -/
def text : Kind → String
  | struct => "struct"
  | union => "union"
  | type c => (Primitive.type c).name
  | sapling p size => p.name ++ "(" ++ toString size.toNat ++ ")"

/-- The text before the last character, if that is a closing parenthesis. -/
def beforeClosing? (cs : List Char) : Option String :=
  if cs.getLast? = some ')' then some (String.ofList cs.dropLast) else none

/-- The kind with a given text: `struct`, `union`, a type constructor, or a primitive with a memo
size in parentheses. -/
def ofText? (text : String) : Option Kind :=
  if text = "struct" then some struct
  else if text = "union" then some union
  else
    let cs := text.toList
    match cs.dropWhile (· ≠ '(') with
    | _ :: rest => do
      let p ← Primitive.ofName? (String.ofList (cs.takeWhile (· ≠ '(')))
      let size ← Text.readUnsigned? (← beforeClosing? rest)
      return sapling p size
    | [] => match Primitive.ofName? text with
      | some (.type c) => some (type c)
      | _ => none

end Kind

end Michelson.Typedef
