import Michelson.Expr.Basic

/-!
# Walks over an expression

Nodes are visited before their children and from left to right. A walk is steered by the
answer given at each node: go on into its children, pass them over, or end the whole walk.

## Main definitions

* `Expr.walk`: the nodes that a steered walk visits, and whether it came to its end
* `Expr.mentions`: whether a primitive is applied anywhere
* `Expr.outermost`: the outermost applications of a primitive
* `Expr.at?`: the node at a path of child positions
-/

namespace Michelson

/-- What a walk does after visiting a node. -/
inductive Step where
  /-- Visit the children of the node next. -/
  | descend
  /-- Pass over the children of the node. -/
  | pass
  /-- End the walk. -/
  | stop
  deriving DecidableEq, Repr

/-- The nodes that a walk visited, in order, and whether it was not ended early. -/
structure Trail where
  visited : List Expr
  completed : Bool

namespace Expr

mutual
/-- The walk from a node, steered by the answer at each node. -/
def walk (steer : Expr → Step) : Expr → Trail
  | e@(int ..) | e@(string ..) | e@(bytes ..) => ⟨[e], steer e ≠ .stop⟩
  | e@(seq xs _) | e@(app _ xs _ _) => match steer e with
    | .stop => ⟨[e], false⟩
    | .pass => ⟨[e], true⟩
    | .descend =>
      let trail := walkAll steer xs
      ⟨e :: trail.visited, trail.completed⟩
/-- The walks from several nodes, one after the other until one of them is ended. -/
def walkAll (steer : Expr → Step) : List Expr → Trail
  | [] => ⟨[], true⟩
  | x :: xs =>
    let first := walk steer x
    if first.completed then
      let others := walkAll steer xs
      ⟨first.visited ++ others.visited, others.completed⟩
    else first
end

/-- Every node of an expression, a node before its children. -/
def nodes (e : Expr) : List Expr := (e.walk fun _ => .descend).visited

/-- A walk that descends everywhere is completed, and the walks from several nodes follow one
another. -/
theorem walkAll_descend (xs : List Expr) :
    walkAll (fun _ => .descend) xs = ⟨xs.flatMap nodes, true⟩ := by
  have completed (e : Expr) : (e.walk fun _ => .descend).completed = true := by
    induction e with
    | int | string | bytes => simp [walk]
    | seq xs as ih | app p xs as flag ih =>
      simp only [walk]
      induction xs with
      | nil => rfl
      | cons x xs ihs =>
        simp only [List.mem_cons, forall_eq_or_imp] at ih
        simp [walkAll, ih.1, ihs ih.2]
  induction xs with
  | nil => rfl
  | cons x xs ih => simp [walkAll, completed, ih, nodes]

@[simp] theorem nodes_int (n : Int) (as : List String) : (int n as).nodes = [int n as] := rfl

@[simp] theorem nodes_string (s : String) (as : List String) :
    (string s as).nodes = [string s as] := rfl

@[simp] theorem nodes_bytes (b : List UInt8) (as : List String) :
    (bytes b as).nodes = [bytes b as] := rfl

@[simp] theorem nodes_seq (xs : List Expr) (as : List String) :
    (seq xs as).nodes = seq xs as :: xs.flatMap nodes := by
  rw [nodes, walk, walkAll_descend]

@[simp] theorem nodes_app (p : Primitive) (xs : List Expr) (as : List String) (flag : Bool) :
    (app p xs as flag).nodes = app p xs as flag :: xs.flatMap nodes := by
  rw [nodes, walk, walkAll_descend]

theorem nodes_eq_cons (e : Expr) : e.nodes = e :: e.children.flatMap nodes := by
  cases e <;> simp [children]

theorem mem_nodes_self (e : Expr) : e ∈ e.nodes := by
  rw [nodes_eq_cons]
  exact List.mem_cons_self

theorem mem_nodes_of_mem_children {e x node : Expr} (hx : x ∈ e.children) (h : node ∈ x.nodes) :
    node ∈ e.nodes := by
  rw [nodes_eq_cons]
  exact List.mem_cons_of_mem _ (List.mem_flatMap.mpr ⟨x, hx, h⟩)

/-- What holds at all nodes holds at the expression itself and at all nodes of its children. -/
theorem forall_mem_nodes_iff {P : Expr → Prop} {e : Expr} :
    (∀ node ∈ e.nodes, P node) ↔ P e ∧ ∀ x ∈ e.children, ∀ node ∈ x.nodes, P node := by
  rw [nodes_eq_cons, List.forall_mem_cons, List.forall_mem_flatMap]

mutual
/-- Whether a primitive is applied anywhere in an expression. -/
def mentions (p : Primitive) : Expr → Bool
  | int .. | string .. | bytes .. => false
  | seq xs _ => mentionsAny p xs
  | app q xs _ _ => q == p || mentionsAny p xs
/-- Whether a primitive is applied anywhere in one of the expressions. -/
def mentionsAny (p : Primitive) : List Expr → Bool
  | [] => false
  | x :: xs => mentions p x || mentionsAny p xs
end

mutual
/-- The applications of a primitive that lie within no other one, from left to right. -/
def outermost (p : Primitive) : Expr → List Expr
  | int .. | string .. | bytes .. => []
  | seq xs _ => outermostAll p xs
  | e@(app q xs _ _) => if q = p then [e] else outermostAll p xs
/-- The outermost applications of a primitive in several expressions. -/
def outermostAll (p : Primitive) : List Expr → List Expr
  | [] => []
  | x :: xs => outermost p x ++ outermostAll p xs
end

/-- The node at a path, each step of which is the position of a child. -/
def at? (e : Expr) : List Nat → Option Expr
  | [] => some e
  | i :: path => (e.children[i]?).bind (at? · path)

end Expr

end Michelson
