import Michelson.Proofs.Marshal.Outline
import Michelson.Proofs.Marshal.SortOrder
import Michelson.Proofs.Marshal.Supplying

/-!
# Where keys cannot be sorted

Each part of a typedef that describes a set, a map or a big map sorts the keys that are built from
the host value it reads. If sorting finds some of them in no order, the run is given up there, so
nothing is built. No other step of a run gives it up.

## Main definitions

* `Typedef.SortsKeys`: the keys that a collection sorts
* `Typedef.Disorders`: whether some collection finds its keys in no order
* `Typedef.GivesUpOnlyIf`: runs that are given up for one reason only

## Main results

* `Typedef.Supplies.exists_of_marshal`: what is built has parts that are built
* `Typedef.not_disorders_of_marshal`: nothing is built where keys are in no order
* `Typedef.disorders_of_marshal`: runs are given up only where keys are in no order
* `Typedef.Disorders.exists_keys`: such keys are many, and their comparison is inconsistent
-/

namespace Michelson.Typedef

/-! ## The keys that are sorted -/

/-- **The keys that a collection sorts**: the items of a set, or the keys of the entries of a map,
as they are built from the host value. -/
inductive SortsKeys (form : ScalarForm) (t : Typedef) (value : Json) : List Expr → Prop where
  | items {items : List Expr} (hkind : t.kind.isType .set = true)
      (hitems : marshalItems form t (t.unwrapName value) t.args = .ok items) :
      SortsKeys form t value items
  | entries {entries : List Expr} (hkind : t.kind.isType .map = true ∨ t.kind.isType .bigMap = true)
      (hentries : marshalEntries form t (t.unwrapName value) t.args = .ok entries) :
      SortsKeys form t value (entries.map Expr.entryKey)

/-- **Whether some collection finds its keys in no order**, when a value is built in a form. -/
def Disorders (form : ScalarForm) (t : Typedef) (value : Json) : Prop :=
  ∃ d x keys, t.Supplies value d x ∧ d.SortsKeys form x keys ∧ sort? Expr.precedes keys = none

section Built

variable {form : ScalarForm} {t c d : Typedef} {value x y : Json} {p : Expr}

theorem sortEntries?_eq_none_iff {entries : List Expr} :
    Expr.sortEntries? entries = none ↔ sort? Expr.precedes (entries.map Expr.entryKey) = none := by
  rw [← map_sort?, Option.map_eq_none_iff]
  rfl

/-- The items of a list or a set are built, and those of a set can be sorted. -/
theorem exists_marshalItems_of_marshalHeld
    (hkind : t.kind.isType .list = true ∨ t.kind.isType .set = true)
    (h : marshalHeld form t value = .ok p) :
    ∃ items, marshalItems form t value t.args = .ok items ∧
      (t.kind.isType .set = true → Expr.sortItems? items ≠ none) := by
  unfold marshalHeld at h
  rw [Kind.isType_iff, Kind.isType_iff, Kind.head?_eq_type_iff, Kind.head?_eq_type_iff] at hkind
  rcases hkind with (hkind | ⟨size, hkind⟩) | (hkind | ⟨size, hkind⟩)
  all_goals
    rw [hkind] at h ⊢
    obtain ⟨items, hitems, h⟩ := bind_eq_ok_iff.mp h
    refine ⟨items, hitems, fun hset => ?_⟩
  · cases hset
  · cases hset
  all_goals
    obtain ⟨listed, hlisted, -⟩ := sortedSequence_eq_ok_iff.mp h
    rw [hlisted]
    exact Option.some_ne_none _

/-- The entries of a map are built and can be sorted, unless a number is read for a big map. -/
theorem exists_marshalEntries_of_marshalHeld
    (hkind : t.kind.isType .map = true ∨ t.kind.isType .bigMap = true)
    (hnumber : ∀ n, value ≠ .number n) (h : marshalHeld form t value = .ok p) :
    ∃ entries, marshalEntries form t value t.args = .ok entries ∧
      Expr.sortEntries? entries ≠ none := by
  have hsorted {run : Except MarshalError (List Expr)}
      (h : (do sortedSequence (Expr.sortEntries? (← run))) = .ok p) :
      ∃ entries, run = .ok entries ∧ Expr.sortEntries? entries ≠ none := by
    obtain ⟨entries, hentries, h⟩ := bind_eq_ok_iff.mp h
    obtain ⟨listed, hlisted, -⟩ := sortedSequence_eq_ok_iff.mp h
    exact ⟨entries, hentries, by rw [hlisted]; exact Option.some_ne_none _⟩
  unfold marshalHeld at h
  rw [Kind.isType_iff, Kind.isType_iff, Kind.head?_eq_type_iff, Kind.head?_eq_type_iff] at hkind
  rcases hkind with (hkind | ⟨size, hkind⟩) | (hkind | ⟨size, hkind⟩)
  · rw [hkind] at h
    exact hsorted h
  · rw [hkind] at h
    exact hsorted h
  all_goals
    rw [hkind] at h
    cases value with
    | number n => exact absurd rfl (hnumber n)
    | _ => exact hsorted h

/-! ## What is built from parts -/

/-- The fields of a struct that is built are built. -/
theorem exists_of_marshalFields {struct : Typedef} {position : Nat} {ts : List Typedef}
    {fields : List (List Nat × Expr)}
    (h : marshalFields form struct value position ts = .ok fields) {i : Nat}
    (hc : ts[i]? = some c) (hx : struct.hostField value (position + i) c = .ok x) :
    ∃ q, c.marshal form x = .ok q := by
  induction ts generalizing position fields i with
  | nil => cases hc
  | cons t ts ih =>
    simp only [marshalFields, bind_eq_ok_iff] at h
    obtain ⟨v, hv, e, he, rest, hrest, -⟩ := h
    cases i with
    | zero =>
      cases hc
      cases hx.symm.trans hv
      exact ⟨e, he⟩
    | succ i =>
      rw [Nat.add_comm i, ← Nat.add_assoc] at hx
      exact ih hrest hc hx

/-- The key and the value of an entry of a map that is built are built. -/
theorem Enters.exists_of_marshalHeld {rest : List Typedef} (henters : t.Enters value x y)
    (hkind : t.kind.isType .map = true ∨ t.kind.isType .bigMap = true)
    (hargs : t.args = c :: d :: rest) (h : marshalHeld form t value = .ok p) :
    (∃ q, c.marshal form x = .ok q) ∧ ∃ q, d.marshal form y = .ok q := by
  have hnumber (n : Json.Number) : value ≠ .number n := by
    rintro rfl
    cases henters
  obtain ⟨entries, h, -⟩ := exists_marshalEntries_of_marshalHeld hkind hnumber h
  rw [hargs] at h
  cases henters with
  | member hm =>
    obtain ⟨_, hentry⟩ := exists_eq_ok_of_mapM h _ hm
    simp only [bind_eq_ok_iff] at hentry
    obtain ⟨k, hk, w, hw, -⟩ := hentry
    exact ⟨⟨k, hk⟩, ⟨w, hw⟩⟩
  | item hitem hhost =>
    obtain ⟨_, hentry⟩ := exists_eq_ok_of_mapM h _ hitem
    simp only [hhost, bind_eq_ok_iff] at hentry
    obtain ⟨_, hhost, k, hk, w, hw, -⟩ := hentry
    cases hhost
    exact ⟨⟨k, hk⟩, ⟨w, hw⟩⟩

/-- **The parts of what is built are built.** -/
theorem Passes.exists_of_marshalHeld (hpass : t.Passes value c x)
    (h : marshalHeld form t (t.unwrapName value) = .ok p) : ∃ q, c.marshal form x = .ok q := by
  cases hpass with
  | field hkind hc hx =>
    obtain ⟨fields, hfields, -⟩ := exists_of_marshalHeld_struct hkind h
    exact exists_of_marshalFields hfields hc (by rwa [Nat.zero_add])
  | branch hkind hx =>
    simp only [marshalHeld, hkind, hx] at h
    replace h : marshalBranch form t c.name x t.args = .ok p := h
    rw [marshalBranch_eq, find?_of_hostBranch hx] at h
    obtain ⟨q, hq, -⟩ := bind_eq_ok_iff.mp h
    exact ⟨q, hq⟩
  | item hkind hargs hitems hx =>
    obtain ⟨items, h, -⟩ := exists_marshalItems_of_marshalHeld hkind h
    rw [hargs, marshalItems, hitems] at h
    exact exists_eq_ok_of_mapM h _ hx
  | key hkind hargs hx =>
    obtain ⟨hkey, -⟩ := hx.exists_of_marshalHeld hkind hargs h
    exact hkey
  | value hkind hargs hx =>
    obtain ⟨-, hvalue⟩ := hx.exists_of_marshalHeld hkind hargs h
    exact hvalue

/-- An option of nothing has no parts. -/
theorem Passes.unwrapName_ne_null (hpass : t.Passes value c x) : t.unwrapName value ≠ .null := by
  intro hnull
  cases hpass with
  | field _ _ hx | branch _ hx | item _ _ hx _ | key _ _ hx | value _ _ hx =>
    rw [hnull] at hx
    cases hx

theorem Passes.exists_of_marshal (hpass : t.Passes value c x) (h : t.marshal form value = .ok p) :
    ∃ q, c.marshal form x = .ok q := by
  rw [marshal_eq] at h
  split at h
  next hnull => exact absurd hnull hpass.unwrapName_ne_null
  next =>
    obtain ⟨e, he, -⟩ := bind_eq_ok_iff.mp h
    exact hpass.exists_of_marshalHeld he

/-- **The parts of what is built are built**, however deep they are. -/
theorem Supplies.exists_of_marshal (hsupplies : t.Supplies value d y)
    (h : t.marshal form value = .ok p) : ∃ q, d.marshal form y = .ok q := by
  induction hsupplies generalizing p with
  | self => exact ⟨p, h⟩
  | part hpass _ ih =>
    obtain ⟨q, hq⟩ := hpass.exists_of_marshal h
    exact ih hq

/-- The items of a collection are read from an array, or they are the members of an object. -/
theorem SortsKeys.exists_hosts {keys : List Expr} (hkeys : t.SortsKeys form value keys) :
    (∃ items, t.unwrapName value = .array items) ∨
      ∃ members, t.unwrapName value = .object members := by
  cases hkeys with
  | items _ hitems =>
    match hargs : t.args with
    | [] =>
      rw [hargs] at hitems
      cases hitems
    | c :: rest =>
      rw [hargs] at hitems
      obtain ⟨hosts, hhosts, -⟩ := bind_eq_ok_iff.mp hitems
      unfold hostItems at hhosts
      split at hhosts
      next items hvalue => exact .inl ⟨items, hvalue⟩
      next => cases hhosts
  | entries _ hentries =>
    match hargs : t.args with
    | [] | [_] =>
      rw [hargs] at hentries
      cases hentries
    | c :: d :: rest =>
      rw [hargs] at hentries
      cases hvalue : t.unwrapName value with
      | array items => exact .inl ⟨items, rfl⟩
      | object members => exact .inr ⟨members, rfl⟩
      | null | bool _ | number _ | string _ =>
        rw [hvalue] at hentries
        cases hentries

/-- A collection that is built has its keys sorted. -/
theorem SortsKeys.sort?_ne_none {keys : List Expr} (hkeys : t.SortsKeys form value keys)
    (h : t.marshal form value = .ok p) : sort? Expr.precedes keys ≠ none := by
  have hhosts := hkeys.exists_hosts
  rw [marshal_eq] at h
  split at h
  next hnull =>
    rw [hnull] at hhosts
    rcases hhosts with ⟨_, hhosts⟩ | ⟨_, hhosts⟩ <;> cases hhosts
  next =>
    obtain ⟨e, he, -⟩ := bind_eq_ok_iff.mp h
    cases hkeys with
    | items hkind hitems =>
      obtain ⟨items, hbuilt, hsort⟩ := exists_marshalItems_of_marshalHeld (.inr hkind) he
      cases hitems.symm.trans hbuilt
      exact hsort hkind
    | entries hkind hentries =>
      have hnumber (n : Json.Number) : t.unwrapName value ≠ .number n := by
        rcases hhosts with ⟨_, hhosts⟩ | ⟨_, hhosts⟩ <;> simp [hhosts]
      obtain ⟨entries, hbuilt, hsort⟩ := exists_marshalEntries_of_marshalHeld hkind hnumber he
      cases hentries.symm.trans hbuilt
      exact mt sortEntries?_eq_none_iff.mpr hsort

/-- **Nothing is built where keys are in no order.** -/
theorem not_disorders_of_marshal (h : t.marshal form value = .ok p) : ¬t.Disorders form value := by
  rintro ⟨d, x, keys, hsupplies, hkeys, hnone⟩
  obtain ⟨q, hq⟩ := hsupplies.exists_of_marshal h
  exact hkeys.sort?_ne_none hq hnone

end Built

/-! ## Runs that are given up -/

/-- **Whether a run is given up for one reason only.** -/
def GivesUpOnlyIf {α : Type} (reason : Prop) (run : Except MarshalError α) : Prop :=
  run = .error .disordered → reason

section Runs

variable {α β : Type} {reason : Prop}

theorem givesUpOnlyIf_ok (a : α) : GivesUpOnlyIf reason (.ok a) := nofun

theorem givesUpOnlyIf_error {e : MarshalError} (h : e ≠ .disordered) :
    GivesUpOnlyIf reason (.error e : Except MarshalError α) :=
  fun he => absurd (Except.error.inj he) h

theorem givesUpOnlyIf_misshapen (t : Typedef) (expected : HostShape) (found : Json) :
    GivesUpOnlyIf reason (t.misshapen expected found : Except MarshalError α) := nofun

theorem givesUpOnlyIf_invalid (t : Typedef) (fault : ScalarFault) :
    GivesUpOnlyIf reason (t.invalid fault : Except MarshalError α) := nofun

theorem givesUpOnlyIf_unsupported (t : Typedef) :
    GivesUpOnlyIf reason (t.unsupported : Except MarshalError α) := nofun

theorem GivesUpOnlyIf.bind {x : Except MarshalError α} {f : α → Except MarshalError β}
    (hx : GivesUpOnlyIf reason x) (hf : ∀ a, x = .ok a → GivesUpOnlyIf reason (f a)) :
    GivesUpOnlyIf reason (x >>= f) := by
  intro h
  rcases bind_eq_error_iff.mp h with h | ⟨a, ha, h⟩
  · exact hx h
  · exact hf a ha h

theorem givesUpOnlyIf_mapM {f : α → Except MarshalError β} {xs : List α}
    (h : ∀ x ∈ xs, GivesUpOnlyIf reason (f x)) : GivesUpOnlyIf reason (xs.mapM f) := by
  induction xs with
  | nil => exact givesUpOnlyIf_ok _
  | cons x xs ih =>
    rw [List.forall_mem_cons] at h
    rw [List.mapM_cons]
    exact h.1.bind fun y _ => (ih h.2).bind fun ys _ => givesUpOnlyIf_ok _

end Runs

/-! ## Scalars -/

section Scalars

variable {reason : Prop} (t : Typedef) (form : ScalarForm) (value : Json)

theorem givesUpOnlyIf_hostText : GivesUpOnlyIf reason (t.hostText value) := by
  cases value with
  | string s => exact givesUpOnlyIf_ok s
  | _ => exact t.givesUpOnlyIf_misshapen _ _

theorem givesUpOnlyIf_hostIdentifier {α : Type} (read : String → Except IdentifierError α) :
    GivesUpOnlyIf reason (t.hostIdentifier read value) := by
  refine (t.givesUpOnlyIf_hostText value).bind fun s _ => ?_
  cases read s with
  | ok x => exact givesUpOnlyIf_ok x
  | error cause => exact t.givesUpOnlyIf_invalid _

theorem givesUpOnlyIf_hostNumber (expected : HostShape) (fault : ScalarFault)
    (read? : String → Option Int) :
    GivesUpOnlyIf reason (t.hostNumber expected fault read? value) := by
  match value with
  | .number (.integer n) => exact givesUpOnlyIf_ok n
  | .number (.float _) => exact t.givesUpOnlyIf_invalid _
  | .string s =>
    rw [hostNumber]
    cases read? s with
    | some n => exact givesUpOnlyIf_ok n
    | none => exact t.givesUpOnlyIf_invalid _
  | .null | .bool _ | .array _ | .object _ => exact t.givesUpOnlyIf_misshapen _ _

theorem givesUpOnlyIf_hostInteger (natural : Bool) :
    GivesUpOnlyIf reason (t.hostInteger natural value) := by
  refine (t.givesUpOnlyIf_hostNumber value _ _ _).bind fun n _ => ?_
  split
  · exact t.givesUpOnlyIf_invalid _
  · exact givesUpOnlyIf_ok _

theorem givesUpOnlyIf_hostTimestamp : GivesUpOnlyIf reason (t.hostTimestamp form value) := by
  refine (t.givesUpOnlyIf_hostNumber value _ _ _).bind fun seconds _ => ?_
  cases form with
  | optimized => exact givesUpOnlyIf_ok _
  | readable =>
    cases Timestamp.render? seconds with
    | some text => exact givesUpOnlyIf_ok _
    | none => exact t.givesUpOnlyIf_invalid _

theorem givesUpOnlyIf_hostAddress : GivesUpOnlyIf reason (t.hostAddress form value) := by
  refine (t.givesUpOnlyIf_hostText value).bind fun s _ => ?_
  dsimp only
  split
  · exact t.givesUpOnlyIf_invalid _
  · split
    · exact givesUpOnlyIf_ok _
    · split
      · exact t.givesUpOnlyIf_invalid _
      · exact givesUpOnlyIf_ok _

theorem givesUpOnlyIf_hostBytes : GivesUpOnlyIf reason (t.hostBytes value) := by
  refine (t.givesUpOnlyIf_hostText value).bind fun s _ => ?_
  dsimp only
  split
  · exact givesUpOnlyIf_ok _
  · exact t.givesUpOnlyIf_invalid _

/-- No scalar gives a run up. -/
theorem givesUpOnlyIf_scalar (c : TypeConstructor) :
    GivesUpOnlyIf reason (t.scalar c form value) := by
  cases c with
  | lambda =>
    simp only [scalar]
    split
    · exact givesUpOnlyIf_ok _
    · exact t.givesUpOnlyIf_invalid _
  | option =>
    simp only [scalar]
    split
    · exact givesUpOnlyIf_ok _
    · exact t.givesUpOnlyIf_unsupported
  | int => exact t.givesUpOnlyIf_hostInteger value false
  | nat | mutez => exact t.givesUpOnlyIf_hostInteger value true
  | saplingState =>
    simp only [scalar]
    split
    · exact givesUpOnlyIf_ok _
    · exact t.givesUpOnlyIf_hostInteger value false
  | string => exact (t.givesUpOnlyIf_hostText value).bind fun s _ => givesUpOnlyIf_ok _
  | bool =>
    simp only [scalar]
    split
    · exact givesUpOnlyIf_ok _
    · exact givesUpOnlyIf_ok _
    · exact givesUpOnlyIf_ok _
    · exact t.givesUpOnlyIf_misshapen _ _
  | unit => exact givesUpOnlyIf_ok _
  | timestamp => exact t.givesUpOnlyIf_hostTimestamp form value
  | address | contract => exact t.givesUpOnlyIf_hostAddress form value
  | txRollupL2Address =>
    refine (t.givesUpOnlyIf_hostIdentifier value _).bind fun address _ => ?_
    split
    · exact givesUpOnlyIf_ok _
    · exact t.givesUpOnlyIf_invalid _
  | keyHash =>
    refine (t.givesUpOnlyIf_hostIdentifier value _).bind fun address _ => ?_
    split
    · exact givesUpOnlyIf_ok _
    · exact t.givesUpOnlyIf_invalid _
  | key | signature | chainId =>
    exact (t.givesUpOnlyIf_hostIdentifier value _).bind fun _ _ => givesUpOnlyIf_ok _
  | bytes | bls12381G1 | bls12381G2 | bls12381Fr | chest | chestKey | saplingTransaction
  | saplingTransactionDeprecated => exact t.givesUpOnlyIf_hostBytes value
  | list | set | map | bigMap | or | pair | operation | never | ticket =>
    exact t.givesUpOnlyIf_unsupported

end Scalars

/-! ## Values with parts -/

section Parts

variable {form : ScalarForm} {t : Typedef} {value : Json} {reason : Prop}

theorem givesUpOnlyIf_hostField (struct : Typedef) (i : Nat) (field : Typedef) :
    GivesUpOnlyIf reason (struct.hostField value i field) := by
  unfold hostField
  split
  · split
    · exact givesUpOnlyIf_ok _
    · split
      · exact givesUpOnlyIf_ok _
      · split
        · exact givesUpOnlyIf_ok _
        · exact givesUpOnlyIf_error nofun
  · split
    · exact givesUpOnlyIf_ok _
    · exact givesUpOnlyIf_error nofun
  · exact struct.givesUpOnlyIf_misshapen _ _

theorem givesUpOnlyIf_hostBranch (union : Typedef) :
    GivesUpOnlyIf reason (union.hostBranch value) := by
  unfold hostBranch
  split
  · split
    · exact givesUpOnlyIf_ok _
    · exact givesUpOnlyIf_error nofun
  · exact givesUpOnlyIf_error nofun
  · exact union.givesUpOnlyIf_misshapen _ _

theorem givesUpOnlyIf_hostEntry (t : Typedef) (entry : Json) :
    GivesUpOnlyIf reason (t.hostEntry entry) := by
  unfold hostEntry
  split
  · split
    · exact givesUpOnlyIf_ok _
    · exact givesUpOnlyIf_error nofun
  · exact t.givesUpOnlyIf_misshapen _ _

theorem givesUpOnlyIf_marshalFields {struct : Typedef} {position : Nat} {ts : List Typedef}
    (h : ∀ i c, ts[i]? = some c → ∀ x, struct.hostField value (position + i) c = .ok x →
      GivesUpOnlyIf reason (c.marshal form x)) :
    GivesUpOnlyIf reason (marshalFields form struct value position ts) := by
  induction ts generalizing position with
  | nil => exact givesUpOnlyIf_ok _
  | cons t ts ih =>
    refine (givesUpOnlyIf_hostField struct position t).bind fun x hx => ?_
    refine (h 0 t rfl x hx).bind fun e _ => ?_
    refine (ih fun i c hc x hx => h (i + 1) c hc x ?_).bind fun rest _ => givesUpOnlyIf_ok _
    rwa [Nat.add_comm i, ← Nat.add_assoc]

variable (hparts : ∀ c x, t.Passes value c x → GivesUpOnlyIf reason (c.marshal form x))

include hparts

theorem givesUpOnlyIf_marshalItems
    (hkind : t.kind.isType .list = true ∨ t.kind.isType .set = true) :
    GivesUpOnlyIf reason (marshalItems form t (t.unwrapName value) t.args) := by
  match hargs : t.args with
  | [] => exact t.givesUpOnlyIf_unsupported
  | c :: rest =>
    rw [marshalItems]
    cases hhosts : t.hostItems (t.unwrapName value) with
    | error e =>
      unfold hostItems at hhosts
      split at hhosts
      · cases hhosts
      · cases hhosts
        exact t.givesUpOnlyIf_misshapen _ _
    | ok hosts =>
      exact givesUpOnlyIf_mapM fun x hx => hparts c x (.item hkind hargs hhosts hx)

theorem givesUpOnlyIf_marshalEntries
    (hkind : t.kind.isType .map = true ∨ t.kind.isType .bigMap = true) :
    GivesUpOnlyIf reason (marshalEntries form t (t.unwrapName value) t.args) := by
  match hargs : t.args with
  | [] | [_] => exact t.givesUpOnlyIf_unsupported
  | c :: d :: rest =>
    have hentry (x y : Json) (henters : t.Enters (t.unwrapName value) x y) :
        GivesUpOnlyIf reason
          (do return Expr.app (.data .elt) [← c.marshal form x, ← d.marshal form y]) :=
      (hparts c x (.key hkind hargs henters)).bind fun k _ =>
        (hparts d y (.value hkind hargs henters)).bind fun w _ => givesUpOnlyIf_ok _
    cases hhost : t.unwrapName value with
    | object members =>
      exact givesUpOnlyIf_mapM fun m hm => hentry _ _ (hhost ▸ .member hm)
    | array items =>
      refine givesUpOnlyIf_mapM fun item hitem => ?_
      refine (t.givesUpOnlyIf_hostEntry item).bind fun host hentered => ?_
      exact hentry _ _ (hhost ▸ .item hitem hentered)
    | null | bool _ | number _ | string _ => exact t.givesUpOnlyIf_misshapen _ _

variable (hsort : ∀ keys, t.SortsKeys form value keys → sort? Expr.precedes keys = none → reason)

omit hparts in
include hsort in
/-- A collection is given up if its keys cannot be sorted. -/
theorem givesUpOnlyIf_sortedSequence (key : Expr → Expr) {run : Except MarshalError (List Expr)}
    (hrun : GivesUpOnlyIf reason run)
    (hkeys : ∀ items, run = .ok items → t.SortsKeys form value (items.map key)) :
    GivesUpOnlyIf reason
      (do sortedSequence (sort? (fun a b => (key a).precedes (key b)) (← run))) := by
  refine hrun.bind fun items hitems => ?_
  cases hsorted : sort? (fun a b => (key a).precedes (key b)) items with
  | some listed => exact givesUpOnlyIf_ok _
  | none =>
    intro _
    refine hsort _ (hkeys items hitems) ?_
    rw [← map_sort?, hsorted, Option.map_none]

include hsort

/-- Values of a type with a constructor of its own. -/
theorem givesUpOnlyIf_held_type {c : TypeConstructor} (hkind : t.kind.head? = some (.type c)) :
    GivesUpOnlyIf reason (marshalHeld form t (t.unwrapName value)) := by
  have hitems (hset : t.kind.isType .set = true) :=
    givesUpOnlyIf_sortedSequence hsort id (givesUpOnlyIf_marshalItems hparts (.inr hset))
      fun items hitems => (List.map_id items).symm ▸ .items hset hitems
  have hentries (hmap : t.kind.isType .map = true ∨ t.kind.isType .bigMap = true) :=
    givesUpOnlyIf_sortedSequence hsort Expr.entryKey (givesUpOnlyIf_marshalEntries hparts hmap)
      fun entries hentries => .entries hmap hentries
  have htype (c' : TypeConstructor) (hc : c = c') : t.kind.isType c' = true :=
    Kind.isType_iff.mpr (hc ▸ hkind)
  unfold marshalHeld
  rcases Kind.head?_eq_type_iff.mp hkind with hkind | ⟨size, hkind⟩
  all_goals
    rw [hkind]
    cases c with
    | list =>
      exact (givesUpOnlyIf_marshalItems hparts (.inl (htype .list rfl))).bind fun _ _ =>
        givesUpOnlyIf_ok _
    | set => exact hitems (htype .set rfl)
    | map => exact hentries (.inl (htype .map rfl))
    | bigMap =>
      dsimp only
      split
      · exact t.givesUpOnlyIf_hostInteger _ false
      · exact hentries (.inr (htype .bigMap rfl))
    | _ => exact t.givesUpOnlyIf_scalar form _ _

theorem givesUpOnlyIf_marshalHeld :
    GivesUpOnlyIf reason (marshalHeld form t (t.unwrapName value)) := by
  cases hkind : t.kind with
  | struct =>
    unfold marshalHeld
    rw [hkind]
    have hfields : GivesUpOnlyIf reason (marshalFields form t (t.unwrapName value) 0 t.args) := by
      refine givesUpOnlyIf_marshalFields fun i c hc x hx => hparts c x (.field hkind hc ?_)
      rwa [Nat.zero_add] at hx
    refine hfields.bind fun fields _ => ?_
    split
    · exact givesUpOnlyIf_ok _
    · exact t.givesUpOnlyIf_unsupported
  | union =>
    unfold marshalHeld
    rw [hkind]
    refine (givesUpOnlyIf_hostBranch t).bind fun branch hbranch => ?_
    dsimp only
    rw [marshalBranch_eq, find?_of_hostBranch hbranch]
    exact (hparts _ _ (.branch hkind hbranch)).bind fun _ _ => givesUpOnlyIf_ok _
  | type c => exact givesUpOnlyIf_held_type hparts hsort (congrArg Kind.head? hkind)
  | sapling p size =>
    cases p with
    | type c => exact givesUpOnlyIf_held_type hparts hsort (congrArg Kind.head? hkind)
    | _ =>
      unfold marshalHeld
      rw [hkind]
      exact t.givesUpOnlyIf_unsupported

end Parts

section Given

variable {form : ScalarForm} {t : Typedef} {value : Json}

/-- **Runs are given up only where keys are in no order.** -/
theorem disorders_of_marshal (h : t.marshal form value = .error .disordered) :
    t.Disorders form value := by
  induction t using args_induction generalizing value with
  | node t ih =>
    have hparts (c : Typedef) (x : Json) (hpass : t.Passes value c x) :
        GivesUpOnlyIf (t.Disorders form value) (c.marshal form x) := by
      intro hc
      obtain ⟨d, y, keys, hsupplies, hkeys⟩ := ih c hpass.mem_args hc
      exact ⟨d, y, keys, .part hpass hsupplies, hkeys⟩
    have hheld := givesUpOnlyIf_marshalHeld hparts fun keys hkeys hnone =>
      ⟨t, value, keys, .self t value, hkeys, hnone⟩
    rw [marshal_eq] at h
    split at h
    next => cases h
    next => exact hheld.bind (fun e _ => givesUpOnlyIf_ok _) h

/-- **Keys in no order** are many, and their comparison is inconsistent. -/
theorem Disorders.exists_keys (h : t.Disorders form value) :
    ∃ d x keys, t.Supplies value d x ∧ d.SortsKeys form x keys ∧ 20 < keys.length ∧
      ¬Preorders Expr.sortOrder keys := by
  obtain ⟨d, x, keys, hsupplies, hkeys, hnone⟩ := h
  exact ⟨d, x, keys, hsupplies, hkeys, Expr.not_preorders_of_sort?_eq_none hnone⟩

end Given

end Michelson.Typedef
