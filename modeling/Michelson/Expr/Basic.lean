import Michelson.Primitive

/-!
# Expressions

Types, values and code share one form, the Micheline expression: an integer, text or byte
literal, a sequence, or a primitive applied to arguments. Every node may carry annotations. An
application also remembers whether it is a pair read from packed bytes, whose layout is final.

## Main definitions

* `Expr`: an expression
* `Expr.annots`, `Expr.packed`, `Expr.head?`, `Expr.children`: the parts of a node
* `Expr.same`: equality of expressions, which ignores the packed flags
* `Expr.describe`: the few words that name a node in a diagnostic
-/

namespace Michelson

/-- **An expression.** Annotations keep the sign they start with. The flag of an application
marks a pair that was read from packed bytes. -/
inductive Expr where
  | int (value : Int) (annots : List String := [])
  | string (value : String) (annots : List String := [])
  | bytes (value : List UInt8) (annots : List String := [])
  | seq (items : List Expr) (annots : List String := [])
  | app (head : Primitive) (args : List Expr) (annots : List String := [])
      (packed : Bool := false)
  deriving Inhabited

namespace Expr

/-- Induction over expressions, with a hypothesis for every child of a node. -/
@[elab_as_elim, induction_eliminator]
theorem children_induction {motive : Expr → Prop}
    (int : ∀ n as, motive (int n as)) (string : ∀ s as, motive (string s as))
    (bytes : ∀ b as, motive (bytes b as))
    (seq : ∀ xs as, (∀ x ∈ xs, motive x) → motive (seq xs as))
    (app : ∀ p xs as flag, (∀ x ∈ xs, motive x) → motive (app p xs as flag)) (e : Expr) :
    motive e :=
  @Expr.rec motive (fun xs => ∀ x ∈ xs, motive x) int string bytes seq app
    (fun _ h => nomatch h) (fun _ _ hx hxs => List.forall_mem_cons.mpr ⟨hx, hxs⟩) e

/-- The annotations of a node, each with its sign. -/
def annots : Expr → List String
  | int _ as | string _ as | bytes _ as | seq _ as | app _ _ as _ => as

/-- Whether a node is a pair that was read from packed bytes. -/
def packed : Expr → Bool
  | app _ _ _ flag => flag
  | _ => false

/-- A type without arguments. -/
def plainType (c : TypeConstructor) : Expr := app (.type c) []

/-- The node with its annotations replaced. -/
def setAnnots (as : List String) : Expr → Expr
  | int n _ => int n as
  | string s _ => string s as
  | bytes b _ => bytes b as
  | seq xs _ => seq xs as
  | app p xs _ flag => app p xs as flag

/-- The node with further annotations after its own. -/
def annotate (e : Expr) (more : List String) : Expr := e.setAnnots (e.annots ++ more)

/-- The primitive that an application applies. -/
def head? : Expr → Option Primitive
  | app p _ _ _ => some p
  | _ => none

/-- The arguments of an application or the items of a sequence; a literal has none. -/
def children : Expr → List Expr
  | app _ xs _ _ | seq xs _ => xs
  | _ => []

/-- Whether a node applies the primitive. -/
def applies (p : Primitive) (e : Expr) : Bool := e.head? == some p

theorem applies_iff {p : Primitive} {e : Expr} :
    e.applies p = true ↔ ∃ xs as flag, e = app p xs as flag := by
  cases e <;> simp [applies, head?]

/-- The integer of an integer literal. -/
def int? : Expr → Option Int
  | int n _ => some n
  | _ => none

/-- The text of a text literal. -/
def string? : Expr → Option String
  | string s _ => some s
  | _ => none

/-- The bytes of a byte literal. -/
def bytes? : Expr → Option (List UInt8)
  | bytes b _ => some b
  | _ => none

/-- Whether a node is a literal. -/
def isLiteral : Expr → Bool
  | int .. | string .. | bytes .. => true
  | seq .. | app .. => false

mutual
/-- Whether two expressions are equal up to their packed flags. -/
def same : Expr → Expr → Bool
  | int m as, int n bs => m == n && as == bs
  | string s as, string t bs => s == t && as == bs
  | bytes b as, bytes c bs => b == c && as == bs
  | seq xs as, seq ys bs => sameAll xs ys && as == bs
  | app p xs as _, app q ys bs _ => p == q && sameAll xs ys && as == bs
  | _, _ => false
/-- Whether two lists of expressions are equal item by item, up to the packed flags. -/
def sameAll : List Expr → List Expr → Bool
  | [], [] => true
  | x :: xs, y :: ys => same x y && sameAll xs ys
  | _, _ => false
end

instance : BEq Expr := ⟨same⟩

/-- The few words that name a node in a diagnostic. -/
def describe : Expr → String
  | int .. => "int literal"
  | string .. => "string literal"
  | bytes .. => "bytes literal"
  | seq xs _ => s!"sequence of {xs.length}"
  | app p [] _ _ => s!"`{p.name}`"
  | app p xs _ _ => s!"`{p.name}` with {xs.length} arguments"

@[simp] theorem annots_setAnnots (as : List String) (e : Expr) : (e.setAnnots as).annots = as := by
  cases e <;> rfl

@[simp] theorem children_setAnnots (as : List String) (e : Expr) :
    (e.setAnnots as).children = e.children := by
  cases e <;> rfl

@[simp] theorem head?_setAnnots (as : List String) (e : Expr) :
    (e.setAnnots as).head? = e.head? := by
  cases e <;> rfl

@[simp] theorem packed_setAnnots (as : List String) (e : Expr) :
    (e.setAnnots as).packed = e.packed := by
  cases e <;> rfl

end Expr

end Michelson
