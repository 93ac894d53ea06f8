import Michelson.Proofs.Identifier.Forms
import Michelson.Proofs.Marshal.Disorder

/-!
# Both forms

The form that is asked for has hardly a say in which host values a typedef takes. What can be built
in readable form can be built in the compact form, and where nothing is built, the failure is the
same in both, with two exceptions. Moments that no calendar date tells are written as seconds in the
compact form, while in readable form they have no text. And keys that are in no order may be found
out in one form only, since accounts and contracts are sorted differently in the two.

## Main results

* `Typedef.marshal_forms`: what is built in one form and in the other
* `Typedef.disordered_in_compact_form`: keys that can be sorted in readable form only
-/

namespace Michelson.Typedef

section Forms

variable (t : Typedef) (value : Json)

/-- Both forms give a value, or both fail in the same way, if no moment is out of range and no run
is given up. -/
theorem marshal_both_or_same_error :
    (∃ e e', t.marshal .readable value = .ok e ∧ t.marshal .optimized value = .ok e') ∨
      (∃ err, t.marshal .readable value = .error err ∧
        (t.marshal .optimized value = .error err ∨ t.IsOutOfRange err)) ∨
      ∃ form, t.marshal form value = .error .disordered := by
  rcases renders_marshal .readable t value with hgiven | hreadable
  · exact .inr (.inr ⟨_, hgiven⟩)
  rcases renders_marshal .optimized t value with hgiven | hoptimized
  · exact .inr (.inr ⟨_, hgiven⟩)
  cases houtline : t.outline value with
  | ok o =>
    rw [houtline] at hreadable hoptimized
    exact .inl ⟨_, _, hreadable, hoptimized⟩
  | error err =>
    rw [houtline] at hreadable hoptimized
    have hfails : t.marshal .readable value = .error err :=
      hreadable.resolve_right fun h => nomatch h.1
    exact .inr (.inl ⟨err, hfails, hoptimized.imp_right And.right⟩)

/-- **What is built in both forms.** A host value of which a value is built in readable form has one
in the compact form, too, exactly if all collections find their keys there in an order. If no value
is built in readable form, then none is built in the compact form for the same reason, unless the
reason is a moment without a text at some part of the typedef that describes moments, or a run is
given up. So without such parts, both forms succeed or both fail in the same way exactly if none of
the runs is given up, or both are. A run is given up only where a collection finds its keys in no
order, and these are more than twenty, with an inconsistent comparison. -/
theorem marshal_forms :
    (∀ e, t.marshal .readable value = .ok e →
      ((∃ e', t.marshal .optimized value = .ok e') ↔ ¬t.Disorders .optimized value)) ∧
    (∀ err, t.marshal .readable value = .error err →
      t.marshal .optimized value = .error err ∨ t.IsOutOfRange err ∨
        ∃ form, t.marshal form value = .error .disordered) ∧
    ((∀ d ∈ t.nodes, d.kind.isType .timestamp = false) →
      (((∃ e e', t.marshal .readable value = .ok e ∧ t.marshal .optimized value = .ok e') ∨
          ∃ err, t.marshal .readable value = .error err ∧
            t.marshal .optimized value = .error err) ↔
        (t.marshal .readable value = .error .disordered ↔
          t.marshal .optimized value = .error .disordered))) ∧
    ∀ form, t.marshal form value = .error .disordered →
      t.Disorders form value ∧
        ∃ d x keys, t.Supplies value d x ∧ d.SortsKeys form x keys ∧ 20 < keys.length ∧
          ¬Preorders Expr.sortOrder keys := by
  have hboth := marshal_both_or_same_error t value
  refine ⟨fun e he => ?_, fun err herr => ?_, fun hnone => ?_, fun form hform => ?_⟩
  · refine ⟨fun ⟨e', he'⟩ => not_disorders_of_marshal he', fun hordered => ?_⟩
    rcases hboth with ⟨_, e', -, he'⟩ | ⟨err, herr, -⟩ | ⟨form, hform⟩
    · exact ⟨e', he'⟩
    · cases he.symm.trans herr
    · cases form with
      | readable => cases he.symm.trans hform
      | optimized => exact absurd (disorders_of_marshal hform) hordered
  · rcases hboth with ⟨e, _, he, -⟩ | ⟨err', herr', hfails⟩ | hgiven
    · cases herr.symm.trans he
    · cases herr.symm.trans herr'
      exact hfails.imp_right .inl
    · exact .inr (.inr hgiven)
  · constructor
    · rintro (⟨e, e', he, he'⟩ | ⟨err, herr, herr'⟩)
      · rw [he, he']
        exact ⟨nofun, nofun⟩
      · rw [herr, herr']
    · intro hsame
      rcases hboth with hok | ⟨err, herr, hfails | ⟨d, hd, hmoment, -⟩⟩ | ⟨form, hform⟩
      · exact .inl hok
      · exact .inr ⟨err, herr, hfails⟩
      · rw [hnone d hd] at hmoment
        cases hmoment
      · cases form with
        | readable => exact .inr ⟨_, hform, hsame.mp hform⟩
        | optimized => exact .inr ⟨_, hsame.mpr hform, hform⟩
  · have hdisorders := disorders_of_marshal hform
    exact ⟨hdisorders, hdisorders.exists_keys⟩

end Forms

/-- A moment that no calendar date tells is written as seconds only. -/
example :
    let t : Typedef := ⟨"expiry", .type .timestamp, false, [], []⟩
    let value : Json := .number (.integer 8210266876800)
    t.marshal .optimized value = .ok (.int 8210266876800) ∧
      t.marshal .readable value = .error (.scalar "expiry" (.type .timestamp) .outOfRange) :=
  ⟨rfl, rfl⟩

/-- A comb of a sender, of an amount and of a note. -/
def paymentType : Expr :=
  .app (.type .pair)
    [.app (.type .address) [] ["%from"], .app (.type .nat) [] ["%amount"],
      .app (.type .string) [] ["%note"]]

/-- The typedef of payments. -/
def payment : Typedef :=
  ⟨"payment", .struct, false,
    [⟨"from", .type .address, false, [], [0]⟩, ⟨"amount", .type .nat, false, [], [1, 0]⟩,
      ⟨"note", .type .string, false, [], [1, 1]⟩], []⟩

/-- A host value of that comb, but for the sign of the amount. -/
def overdrawn : Json :=
  .object [("from", .string "tz1eZUHkQDC1bBEbvrrUxkbWEagdZJXQyszc"),
    ("amount", .number (.integer (-3))), ("note", .string "rent")]

theorem marshal_forms_overdrawn :
    derive paymentType "payment" = .ok payment ∧
      (∀ d ∈ payment.nodes, d.kind.isType .timestamp = false) ∧
      ∃ err, payment.marshal .readable overdrawn = .error err ∧
        payment.marshal .optimized overdrawn = .error err := by
  have hscalar (form : ScalarForm) :
      (payment.marshal form overdrawn matches .error (.scalar ..)) = true := by
    cases form <;> decide +kernel
  have hgiven (form : ScalarForm) : payment.marshal form overdrawn ≠ .error .disordered := by
    intro h
    have hfails := hscalar form
    rw [h] at hfails
    cases hfails
  have hnone : ∀ d ∈ payment.nodes, d.kind.isType .timestamp = false := by decide
  refine ⟨rfl, hnone, (((marshal_forms payment overdrawn).2.2.1 hnone).mpr
    (iff_of_false (hgiven _) (hgiven _))).resolve_left ?_⟩
  rintro ⟨e, -, he, -⟩
  have hfails := hscalar .readable
  rw [he] at hfails
  cases hfails

/-! ## Keys that can be sorted in one form only -/

/-- The type of sets of sapling states, each with its owner. -/
def shieldedType : Expr :=
  .app (.type .set)
    [.app (.type .pair) [.plainType .address, .app (.type .saplingState) [.int 8]]]

/-- The typedef of owners. -/
def ownerTypedef : Typedef := ⟨"0", .type .address, false, [], [0, 0]⟩

/-- The typedef of what they own. -/
def stateTypedef : Typedef := ⟨"1", .sapling (.type .saplingState) 8, false, [], [0, 1]⟩

/-- The typedef of sets of sapling states. -/
def shieldedTypedef : Typedef :=
  ⟨"shielded", .type .set, false,
    [⟨"@item", .struct, false, [ownerTypedef, stateTypedef], [0]⟩], []⟩

/-- An account. -/
def account : Address := ⟨.ed25519, List.replicate 20 0, rfl⟩

/-- A contract. -/
def vault : Address := ⟨.contract, List.replicate 20 0, rfl⟩

/-- Twenty-one items, all but three of which are the same. -/
def twentyOne {α : Type} (most twelfth thirteenth fourteenth : α) : List α :=
  List.replicate 11 most ++ [twelfth, thirteenth, fourteenth] ++ List.replicate 7 most

/-- The text of the account. -/
def accountText : String := "tz1Ke2h7sDdakHJQh8WX4Z372du1KChsksyU"

/-- The text of the contract. -/
def vaultText : String := "KT18amZmM5W7qDWVt2pH6uj7sCEd3kbzLrHT"

/-- A state of a contract among those of an account, of which one is the empty state. -/
def shieldedHosts : List Json :=
  let owned (owner : String) (state : Json) := Json.array [.string owner, state]
  twentyOne (owned accountText (.number (.integer 1))) (owned vaultText (.number (.integer 2)))
    (owned accountText (.number (.integer 2))) (owned accountText (.array []))

/-- The keys that are built from these, with what is written for the account and the contract. -/
def shieldedKeys (account vault : Expr) : List Expr :=
  let owned (owner state : Expr) := Expr.app (.data .pair) [owner, state]
  twentyOne (owned account (.int 1)) (owned vault (.int 2)) (owned account (.int 2))
    (owned account (.seq []))

theorem mapM_twentyOne {α β : Type} {f : α → Except MarshalError β} {x y z w : α} {x' y' z' w' : β}
    (hx : f x = .ok x') (hy : f y = .ok y') (hz : f z = .ok z') (hw : f w = .ok w') :
    (twentyOne x y z w).mapM f = .ok (twentyOne x' y' z' w') := by
  have hsame (n : Nat) : List.Forall₂ (fun x y => f x = .ok y) (List.replicate n x)
      (List.replicate n x') := by
    induction n with
    | zero => exact .nil
    | succ n ih => exact .cons hx ih
  have hothers : List.Forall₂ (fun x y => f x = .ok y) [y, z, w] [y', z', w'] :=
    .cons hy (.cons hz (.cons hw .nil))
  exact mapM_eq_ok_iff.mpr (List.rel_append (List.rel_append (hsame 11) hothers) (hsame 7))

theorem marshal_owner (form : ScalarForm) {owner : String} {a : Address}
    (hsplit : splitEntrypoint owner = (owner, none)) (htext : a.text = owner) :
    ownerTypedef.marshal form (.string owner) = .ok (form.pick a.toBytes owner) := by
  rw [marshal_eq]
  refine (bind_pure (ownerTypedef.hostAddress form (.string owner))).trans ?_
  rw [hostAddress, hostText]
  refine (pure_bind owner _).trans ?_
  simp only [hsplit, Address.ofText_eq_ok_iff.mpr htext, htext]
  rfl

theorem marshal_owned {form : ScalarForm} {owner host : Json} {address state : Expr}
    (howner : ownerTypedef.marshal form owner = .ok address)
    (hstate : stateTypedef.marshal form host = .ok state) :
    marshalPart form shieldedTypedef (.array [owner, host]) =
      .ok (.app (.data .pair) [address, state]) := by
  let item : Typedef := ⟨"@item", .struct, false, [ownerTypedef, stateTypedef], [0]⟩
  have hfields : marshalFields form item (.array [owner, host]) 0 [ownerTypedef, stateTypedef] =
      .ok [([0], address), ([1], state)] := by
    rw [marshalFields, marshalFields, marshalFields]
    refine (pure_bind owner _).trans ?_
    rw [howner]
    refine (pure_bind address _).trans ?_
    refine (congrArg (· >>= _) (pure_bind host _)).trans ?_
    rw [hstate]
    rfl
  show item.marshal form (.array [owner, host]) = _
  rw [marshal_eq]
  have hcomb : Expr.assemble? [([0], address), ([1], state)] =
      some (.app (.data .pair) [address, state]) := by
    have happend := Expr.assemble?_append [([], address)] [([], state)]
    rwa [Expr.assemble?_singleton, Expr.assemble?_singleton] at happend
  refine (congrArg (· >>= _) (congrArg (· >>= _) hfields)).trans ?_
  refine (congrArg (· >>= _) (pure_bind _ _)).trans ?_
  rw [hcomb]
  rfl

theorem marshal_shieldedHosts (form : ScalarForm) :
    shieldedTypedef.marshal form (.array shieldedHosts) =
      sortedSequence (sort? Expr.precedes (shieldedKeys (form.pick account.toBytes accountText)
        (form.pick vault.toBytes vaultText))) := by
  have haccount : ownerTypedef.marshal form (.string accountText) =
      .ok (form.pick account.toBytes accountText) :=
    marshal_owner form rfl (by decide +kernel)
  have hvault : ownerTypedef.marshal form (.string vaultText) =
      .ok (form.pick vault.toBytes vaultText) :=
    marshal_owner form rfl (by decide +kernel)
  have hnumber (n : Int) : stateTypedef.marshal form (.number (.integer n)) = .ok (.int n) := rfl
  have hkeys : shieldedHosts.mapM (marshalPart form shieldedTypedef) =
      .ok (shieldedKeys (form.pick account.toBytes accountText)
        (form.pick vault.toBytes vaultText)) :=
    mapM_twentyOne (marshal_owned haccount (hnumber 1)) (marshal_owned hvault (hnumber 2))
      (marshal_owned haccount (hnumber 2)) (marshal_owned haccount rfl)
  have hcollects : Collects _ shieldedTypedef := .set
  rw [hcollects.marshal_array, hkeys]
  exact bind_pure (sortedSequence (sort? Expr.precedes _))

/-- **Keys that can be sorted in readable form only.** The text of the contract comes before that of
the account, and its bytes come behind. There the two halves of the set do not meet when they are
put together from both ends, since the empty state is level with all others of its owner. -/
theorem disordered_in_compact_form :
    derive shieldedType "shielded" = .ok shieldedTypedef ∧
      (∀ d ∈ shieldedTypedef.nodes, d.kind.isType .timestamp = false) ∧
      (∃ e, shieldedTypedef.marshal .readable (.array shieldedHosts) = .ok e) ∧
      shieldedTypedef.marshal .optimized (.array shieldedHosts) = .error .disordered := by
  have hreadable : (sort? Expr.precedes
      (shieldedKeys (.string accountText) (.string vaultText))).isSome = true := by
    decide +kernel
  have hoptimized : (sort? Expr.precedes
      (shieldedKeys (.bytes account.toBytes) (.bytes vault.toBytes))).isNone = true := by
    decide +kernel
  obtain ⟨listed, hlisted⟩ := Option.isSome_iff_exists.mp hreadable
  refine ⟨rfl, by decide, ⟨.seq listed, ?_⟩, ?_⟩
  · rw [marshal_shieldedHosts]
    exact congrArg sortedSequence hlisted
  · rw [marshal_shieldedHosts]
    exact congrArg sortedSequence (Option.isNone_iff_eq_none.mp hoptimized)

end Michelson.Typedef
