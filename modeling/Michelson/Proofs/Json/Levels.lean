import Michelson.Proofs.Json.Document
import Michelson.Proofs.Success

/-!
# Levels of documents

A document that is read within some levels gives a value of no more levels, and it is read as the
same value by every reader that admits more. So the limit of a reader decides only whether a
document is read and never as what.

## Main definitions

* `Reader.Yields`: what one reader takes, another takes as well, and it has a property

## Main results

* `Reader.yields_arrayOf`, `Reader.yields_objectOf`: arrays and objects pass the relation on
* `Reader.yields_value`: readers that admit more levels
* `parse?_mono`, `depth_le_of_parse?`: the same for documents
-/

namespace Michelson.Json

namespace Reader

variable {ε α β σ : Type}

/-- **Whatever the first reader takes**, the second takes as well, and it has the property. -/
def Yields (r r' : Reader ε α) (P : α → Prop) : Prop :=
  ∀ s x rest, r s = .ok (x, rest) → r' s = .ok (x, rest) ∧ P x

section Sequencing

variable {r r' : Reader ε α} {f f' : α → Reader ε β} {P : α → Prop} {Q : β → Prop}

theorem bind_eq_ok {s s'' : List Char} {y : β} (h : (r >>= f) s = .ok (y, s'')) :
    ∃ x s', r s = .ok (x, s') ∧ f x s' = .ok (y, s'') := by
  obtain ⟨⟨x, s'⟩, hx, hy⟩ := bind_eq_ok_iff.mp
    (show (r s >>= fun p => f p.1 p.2) = .ok (y, s'') from h)
  exact ⟨x, s', hx, hy⟩

theorem yields_self (r : Reader ε α) : Yields r r fun _ => True := fun _ _ _ h => ⟨h, trivial⟩

theorem yields_pure {x : α} (h : P x) : Yields (pure x : Reader ε α) (pure x) P := by
  intro s y rest hy
  cases hy
  exact ⟨rfl, h⟩

theorem yields_malformed : Yields (malformed : Reader ε α) r' P := by
  intro s x rest h
  cases h

theorem Yields.bind (hr : Yields r r' P) (hf : ∀ x, P x → Yields (f x) (f' x) Q) :
    Yields (r >>= f) (r' >>= f') Q := by
  intro s y rest h
  obtain ⟨x, s', hx, hy⟩ := bind_eq_ok h
  obtain ⟨hx', hP⟩ := hr s x s' hx
  rw [bind_of_ok hx']
  exact hf x hP s' y rest hy

/-- After the same first step, the readers differ only in what follows. -/
theorem Yields.after (r : Reader ε α) (hf : ∀ x, Yields (f x) (f' x) Q) :
    Yields (r >>= f) (r >>= f') Q :=
  (yields_self r).bind fun x _ => hf x

end Sequencing

/-! ## Arrays and objects -/

section Arrays

variable {item item' : Reader ε α} {P : α → Prop}

theorem yields_moreItems (h : Yields item item' P) (fuel : List Char) {acc : List α}
    (hacc : ∀ x ∈ acc, P x) :
    Yields (moreItems item fuel acc) (moreItems item' fuel acc) fun xs => ∀ x ∈ xs, P x := by
  induction fuel generalizing acc with
  | nil => exact yields_malformed
  | cons _ fuel ih =>
    refine .after _ fun _ => .after _ fun next => ?_
    split
    · refine .after _ fun _ => yields_pure ?_
      simpa only [List.mem_reverse] using hacc
    · refine .after _ fun _ => h.bind fun x hx => ih ?_
      exact List.forall_mem_cons.mpr ⟨hx, hacc⟩
    · exact yields_malformed

/-- **Arrays pass the relation on**: every item has the property. -/
theorem yields_arrayOf (h : Yields item item' P) :
    Yields (arrayOf item) (arrayOf item') fun xs => ∀ x ∈ xs, P x := by
  refine .after _ fun _ => .after _ fun _ => .after _ fun next => ?_
  split
  · exact .after _ fun _ => yields_pure (List.forall_mem_nil P)
  · exact .after _ fun fuel => h.bind fun x hx =>
      yields_moreItems h fuel (List.forall_mem_singleton.mpr hx)

end Arrays

section Objects

variable {member member' : σ → String → Reader ε σ} {I : σ → Prop} {state : σ}

theorem yields_memberOf
    (h : ∀ state name, I state → Yields (member state name) (member' state name) I)
    (hstate : I state) : Yields (memberOf member state) (memberOf member' state) I :=
  .after _ fun _ => .after _ fun name => .after _ fun _ => .after _ fun _ => h state name hstate

theorem yields_moreMembers
    (h : ∀ state name, I state → Yields (member state name) (member' state name) I)
    (fuel : List Char) (hstate : I state) :
    Yields (moreMembers member fuel state) (moreMembers member' fuel state) I := by
  induction fuel generalizing state with
  | nil => exact yields_malformed
  | cons _ fuel ih =>
    refine .after _ fun _ => .after _ fun next => ?_
    split
    · exact .after _ fun _ => yields_pure hstate
    · exact .after _ fun _ => (yields_memberOf h hstate).bind fun next hnext => ih hnext
    · exact yields_malformed

/-- **Objects pass the relation on**: what every member preserves holds at the end. -/
theorem yields_objectOf
    (h : ∀ state name, I state → Yields (member state name) (member' state name) I)
    (hstate : I state) : Yields (objectOf member state) (objectOf member' state) I := by
  refine .after _ fun _ => .after _ fun _ => .after _ fun next => ?_
  split
  · exact .after _ fun _ => yields_pure hstate
  · exact .after _ fun fuel => (yields_memberOf h hstate).bind fun next hnext =>
      yields_moreMembers h fuel hnext

end Objects

/-! ## Values -/

theorem keepLast_subset (ms : List (String × Json)) : keepLast ms ⊆ ms := by
  fun_induction keepLast ms with
  | case1 a b rest heq ih => exact List.subset_cons_of_subset a ih
  | case2 a b rest hne ih => exact List.cons_subset_cons a ih
  | case3 ms _ => exact List.Subset.refl ms

theorem sortMembers_subset (ms : List (String × Json)) : sortMembers ms ⊆ ms :=
  List.Subset.trans (keepLast_subset _) (List.mergeSort_perm ms _).subset

/-- Only values of no level are read without one. -/
theorem yields_scalar : Yields (scalar : Reader ε Json) scalar fun v => v.depth ≤ 0 := by
  have hdone (v : Json) (hv : v.depth = 0) :
      Yields (pure v : Reader ε Json) (pure v) fun v => v.depth ≤ 0 :=
    yields_pure (Nat.le_of_eq hv)
  refine .after _ fun next => ?_
  split
  · exact .after _ fun _ => hdone _ rfl
  · exact .after _ fun _ => hdone _ rfl
  · exact .after _ fun _ => hdone _ rfl
  · exact .after _ fun s => hdone _ rfl
  · exact .after _ fun n => hdone _ rfl

/-- No value of no level starts with a bracket or a brace. -/
theorem scalar_bracket {c : Char} (hc : c = '[' ∨ c = '\x7b') (s : List Char) :
    (scalar : Reader ε Json) (c :: s) = .error .malformed := by
  rcases hc with rfl | rfl <;> rfl

/-- **A reader that admits more levels** takes what another takes, and that has no more levels than
the other admits. -/
theorem yields_value {m n : Nat} (h : m ≤ n) :
    Yields (value m : Reader ε Json) (value n) fun v => v.depth ≤ m := by
  induction m generalizing n with
  | zero =>
    cases n with
    | zero => exact .after _ fun _ => yields_scalar
    | succ n =>
      refine .after _ fun _ => fun s v rest hv => ?_
      rw [bind_of_ok (peek?_apply s)]
      generalize hnext : s.head? = next
      have hbracket {c : Char} (hc : c = '[' ∨ c = '\x7b') (hhead : s.head? = some c) : False := by
        obtain ⟨tail, rfl⟩ := List.head?_eq_some_iff.mp hhead
        rw [scalar_bracket hc] at hv
        cases hv
      revert hnext
      split
      · exact fun hnext => (hbracket (.inl rfl) hnext).elim
      · exact fun hnext => (hbracket (.inr rfl) hnext).elim
      · exact fun _ => yields_scalar s v rest hv
  | succ m ih =>
    have hn : 0 < n := Nat.lt_of_lt_of_le m.succ_pos h
    obtain ⟨n, rfl⟩ := Nat.exists_eq_succ_of_ne_zero (Nat.ne_of_gt hn)
    have hitem := ih (Nat.le_of_succ_le_succ h)
    refine .after _ fun _ => .after _ fun next => ?_
    split
    · refine (yields_arrayOf hitem).bind fun xs hxs => yields_pure ?_
      exact depth_array_le_iff.mpr ⟨m.succ_pos, hxs⟩
    · have hmembers : Yields
          (objectOf (fun acc name => do return (name, ← value (ε := ε) m) :: acc) [])
          (objectOf (fun acc name => do return (name, ← value (ε := ε) n) :: acc) [])
          fun ms => ∀ p ∈ ms, p.2.depth ≤ m :=
        yields_objectOf (fun acc name hacc => hitem.bind fun v hv =>
          yields_pure (List.forall_mem_cons.mpr ⟨hv, hacc⟩)) (List.forall_mem_nil _)
      refine hmembers.bind fun ms hms => yields_pure ?_
      refine depth_object_le_iff.mpr ⟨m.succ_pos, fun p hp => hms p ?_⟩
      exact List.mem_reverse.mp (sortMembers_subset _ hp)
    · exact fun s v rest hv => ⟨(yields_scalar s v rest hv).1,
        Nat.le_trans (yields_scalar s v rest hv).2 (Nat.zero_le _)⟩

/-! ## Documents -/

theorem run_of_yields {r r' : Reader ε α} {P : α → Prop} {text : String} {x : α}
    (hr : Yields r r' P) (h : r.run text = .ok x) : r'.run text = .ok x ∧ P x := by
  rw [run, map_eq_ok_iff] at h
  obtain ⟨⟨_, rest⟩, hread, rfl⟩ := h
  have hdocument : Yields
      (skipBlanks >>= fun _ => r >>= fun x => skipBlanks >>= fun _ => do
        if (← get).isEmpty then return x else malformed)
      (skipBlanks >>= fun _ => r' >>= fun x => skipBlanks >>= fun _ => do
        if (← get).isEmpty then return x else malformed) P := by
    refine .after _ fun _ => hr.bind fun x hx => .after _ fun _ => .after _ fun tail => ?_
    split
    · exact yields_pure hx
    · exact yields_malformed
  obtain ⟨hread', hP⟩ := hdocument _ _ _ hread
  exact ⟨by rw [run, hread']; rfl, hP⟩

end Reader

section Documents

variable {m n : Nat} {text : String} {v : Json}

theorem parse?_eq_some_iff :
    parse? n text = some v ↔ (Reader.value (ε := Empty) n).run text = .ok v := by
  rw [parse?]
  cases (Reader.value (ε := Empty) n).run text <;> simp [Except.toOption]

/-- A document that is read within some levels is read the same within more. -/
theorem parse?_mono (hle : m ≤ n) (h : parse? m text = some v) : parse? n text = some v := by
  rw [parse?_eq_some_iff] at h ⊢
  exact (Reader.run_of_yields (Reader.yields_value hle) h).1

/-- A document has no more levels than the limit it was read within. -/
theorem depth_le_of_parse? (h : parse? n text = some v) : v.depth ≤ n := by
  rw [parse?_eq_some_iff] at h
  exact (Reader.run_of_yields (Reader.yields_value (Nat.le_refl n)) h).2

/-- The limit does not decide as what a document is read. -/
theorem parse?_unique {w : Json} (hm : parse? m text = some v) (hn : parse? n text = some w) :
    v = w := by
  have hv := parse?_mono (Nat.le_max_left m n) hm
  have hw := parse?_mono (Nat.le_max_right m n) hn
  exact Option.some.inj (hv.symm.trans hw)

end Documents

end Michelson.Json
