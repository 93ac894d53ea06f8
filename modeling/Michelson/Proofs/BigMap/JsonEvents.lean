import Michelson.BigMap.Json
import Michelson.Proofs.BigMap.Stream
import Michelson.Proofs.Expr.JsonForm
import Michelson.Proofs.Identifier.Forms

/-!
# Big-map events through JSON

Events are read back from their JSON text member by member. The name of an action stands in its own
member, and an entry that is set has a value, be it `None`, so that no update is taken for a removal
nor a removal for an update.

## Main definitions

* `Event.jsonCanonical`: the event as its JSON form tells it
* `Event.FitsWords`: events whose ids fit in 64 bits

## Main results

* `takesMembers_cons`: what a member holds is put into a draft
* `takes_readEvent`: an event is read back
* `eventsOfText_eventsText`: lists of events are
-/

namespace Michelson.BigMap

open Json (Reader)
open Json.Reader

/-- The action with its expressions as their JSON forms tell them. -/
def Action.jsonCanonical : Action → Action
  | update keyHash key value => update keyHash key.jsonCanonical value.jsonCanonical
  | remove keyHash key => remove keyHash key.jsonCanonical
  | alloc keyType valueType => alloc keyType.jsonCanonical valueType.jsonCanonical
  | copy source destination => copy source destination

/-- **The event as its JSON form tells it.** -/
def Event.jsonCanonical (event : Event) : Event := ⟨event.id, event.action.jsonCanonical⟩

/-- Whether all ids of an event fit in 64 bits. -/
def Event.FitsWords (event : Event) : Prop := ∀ id ∈ event.ids, Text.fitsWord id = true

/-- Whether all annotations of the expressions of an event have a JSON form. -/
def Event.AnnotatesApps (event : Event) : Prop :=
  ∀ part ∈ event.action.parts, part.1.AnnotatesApps

instance (event : Event) : Decidable event.FitsWords :=
  inferInstanceAs (Decidable (∀ id ∈ event.ids, _))

instance (event : Event) : Decidable event.AnnotatesApps :=
  inferInstanceAs (Decidable (∀ part ∈ event.action.parts, _))

/-! ## Members -/

section Members

variable {α : Type} {text : List Char}

/-- Anything that does not start like null is read with the given reader. -/
theorem takes_optional {reader : Reader EventFault α} {c : Char} {x : α}
    (hc : text.head? = some c) (hblank : Json.isBlank c = false) (hnull : c ≠ 'n')
    (h : reader.Takes text x) : (optional reader).Takes text (some x) := by
  refine Takes.skip hc hblank (Takes.peek hc ?_)
  rw [if_neg (by simpa using hnull)]
  exact h.map some

theorem head?_quote (s : String) : (Json.quote s).toList.head? = some '"' := by
  rw [toList_quote]
  rfl

theorem takes_optional_readId {id : Int} (h : Text.fitsWord id = true) :
    (optional readId).Takes (Json.quote (toString id)).toList (some id) := by
  have hvalue : (value memberLevels : Reader EventFault Json).Takes
      (Json.quote (toString id)).toList (.string (toString id)) :=
    takes_value_of_scalar (head?_quote _) (by decide) (by decide) (by decide) (takes_text _)
  refine takes_optional (head?_quote _) (by decide) (by decide) (hvalue.last ?_)
  simp only [Text.readSigned?_toString h]
  exact takes_pure id

theorem takes_optional_readKeyHash (keyHash : ExprHash) :
    (optional readKeyHash).Takes (Json.quote keyHash.text).toList (some keyHash) := by
  refine takes_optional (head?_quote _) (by decide) (by decide) ((takes_string _).last ?_)
  simp only [ExprHash.ofText_text]
  exact takes_pure keyHash

/-- The text of an expression starts with a brace or a bracket. -/
theorem head?_compact_toJson (e : Expr) :
    e.toJson.compact.toList.head? = some '\x7b' ∨ e.toJson.compact.toList.head? = some '[' := by
  cases e with
  | int | string | bytes | app =>
    left
    rw [Expr.toJson, Json.toList_compact_object]
    rfl
  | seq =>
    right
    rw [Expr.toJson, Json.toList_compact_array]
    rfl

theorem takes_optional_readExpr {e : Expr} (h : e.toJson.depth ≤ memberLevels) :
    (optional readExpr).Takes e.toJson.compact.toList (some e.jsonCanonical) := by
  have hread : readExpr.Takes e.toJson.compact.toList e.jsonCanonical := by
    refine (takes_value (Expr.numberFree_toJson e) h).last ?_
    simp only [Expr.ofJson_toJson Json.rearranges_sorted]
    exact takes_pure _
  rcases head?_compact_toJson e with hc | hc
  · exact takes_optional hc (by decide) (by decide) hread
  · exact takes_optional hc (by decide) (by decide) hread

theorem find?_name (member : Member) :
    Member.all.find? (·.name == member.name) = some member := by
  cases member <;> rfl

/-- **A member is read into a draft**, if it was not seen before. -/
theorem takes_readNamed {draft next : Draft} {member : Member}
    (hseen : draft.seen.contains member = false) (h : (draft.read member).Takes text next) :
    (draft.readNamed member.name).Takes text next := by
  rw [Draft.readNamed, find?_name]
  simp only [hseen, Bool.false_eq_true, if_false]
  exact h

/-- The name of the action is read into a draft. -/
theorem takes_read_action (draft : Draft) (name : String) :
    (draft.read .action).Takes (Json.quote name).toList
      { draft with seen := .action :: draft.seen, action := some name } :=
  Takes.skip (head?_quote name) (by decide) ((takes_string name).map _)

/-- The texts of the values of members, under the names of the members. -/
def memberTexts (members : List (Member × Json)) : List (String × List Char) :=
  members.map fun (member, value) => (member.name, value.compact.toList)

/-- **What a member holds** is put into a draft before the other members are read. -/
theorem takesMembers_cons {draft final : Draft} {member : Member} {value : Json}
    {members : List (Member × Json)} {reader : Reader EventFault α} {x : α} {put : α → Draft}
    (hread : draft.read member = do return put (← reader))
    (hseen : draft.seen.contains member = false) (h : reader.Takes value.compact.toList x)
    (hmembers : TakesMembers Draft.readNamed (put x) (memberTexts members) final) :
    TakesMembers Draft.readNamed draft (memberTexts ((member, value) :: members)) final := by
  refine .cons (takes_readNamed hseen ?_) hmembers
  rw [hread]
  exact h.map put

end Members

/-! ## Events -/

/-- The members of an event. -/
def Event.members (event : Event) : List (Member × Json) :=
  (.action, .string event.action.code.name) :: (.bigMap, .string (toString event.id)) ::
    event.action.members

theorem toList_compact_event (event : Event) :
    event.toJson.compact.toList = objectText (memberTexts event.members) := by
  rw [Event.toJson, Json.toList_compact_object, List.map_map]
  rfl

/-- The draft of an event after its first two members. -/
def Event.started (event : Event) : Draft where
  seen := [.bigMap, .action]
  action := some event.action.code.name
  bigMap := some event.id

/-- Every event starts with the name of the action and the id. -/
theorem takesMembers_event {event : Event} {final : Draft} (hid : Text.fitsWord event.id = true)
    (h : TakesMembers Draft.readNamed event.started (memberTexts event.action.members) final) :
    TakesMembers Draft.readNamed {} (memberTexts event.members) final := by
  refine .cons (takes_readNamed rfl (takes_read_action _ _)) ?_
  exact takesMembers_cons rfl rfl (takes_optional_readId hid) h

/-- **The members of an event** make a draft of it, whose event is told apart from others by the
name of the action and by whether there is a value. -/
theorem exists_draft {event : Event} (hids : event.FitsWords)
    (hdepth : ∀ part ∈ event.action.parts, part.1.toJson.depth ≤ memberLevels) :
    ∃ draft, TakesMembers Draft.readNamed {} (memberTexts event.members) draft ∧
      draft.finish = pure event.jsonCanonical := by
  obtain ⟨id, action⟩ := event
  have hid : Text.fitsWord id = true := hids id (by cases action <;> simp [Event.ids])
  cases action with
  | update keyHash key value =>
    simp only [Action.parts, List.forall_mem_cons] at hdepth
    refine ⟨_, takesMembers_event hid <|
      takesMembers_cons rfl rfl (takes_optional_readKeyHash keyHash) <|
      takesMembers_cons rfl rfl (takes_optional_readExpr hdepth.1) <|
      takesMembers_cons rfl rfl (takes_optional_readExpr hdepth.2.1) <| .nil _, ?_⟩
    rfl
  | remove keyHash key =>
    simp only [Action.parts, List.forall_mem_cons] at hdepth
    refine ⟨_, takesMembers_event hid <|
      takesMembers_cons rfl rfl (takes_optional_readKeyHash keyHash) <|
      takesMembers_cons rfl rfl (takes_optional_readExpr hdepth.1) <| .nil _, ?_⟩
    rfl
  | alloc keyType valueType =>
    simp only [Action.parts, List.forall_mem_cons] at hdepth
    refine ⟨_, takesMembers_event hid <|
      takesMembers_cons rfl rfl (takes_optional_readExpr hdepth.1) <|
      takesMembers_cons rfl rfl (takes_optional_readExpr hdepth.2.1) <| .nil _, ?_⟩
    rfl
  | copy source destination =>
    have hsource := hids source (by simp [Event.ids])
    have hdestination := hids destination (by simp [Event.ids])
    refine ⟨_, takesMembers_event hid <|
      takesMembers_cons rfl rfl (takes_optional_readId hsource) <|
      takesMembers_cons rfl rfl (takes_optional_readId hdestination) <| .nil _, ?_⟩
    rfl

/-- **An event is read back** from its JSON text. -/
theorem takes_readEvent {event : Event} (hids : event.FitsWords)
    (hdepth : ∀ part ∈ event.action.parts, part.1.toJson.depth ≤ memberLevels) :
    readEvent.Takes event.toJson.compact.toList event.jsonCanonical := by
  obtain ⟨draft, hmembers, hfinish⟩ := exists_draft hids hdepth
  rw [toList_compact_event]
  refine Takes.skip (c := '\x7b') rfl (by decide) (Takes.peek rfl ?_)
  refine (takes_objectOf hmembers).last ?_
  simp only [hfinish]
  exact takes_pure _

/-- Every expression is the value of a member. -/
theorem toJson_mem_members (action : Action) :
    ∀ part ∈ action.parts, part.1.toJson ∈ action.members.map Prod.snd := by
  cases action <;> simp [Action.parts, Action.members]

/-- The expressions of an event lie two levels deep in a list of events. -/
theorem depth_part_le {events : List Event} {levels : Nat}
    (h : (eventsToJson events).depth ≤ levels) :
    ∀ event ∈ events, ∀ part ∈ event.action.parts, part.1.toJson.depth ≤ levels - 2 := by
  intro event hevent part hpart
  have hobject : event.toJson.depth ≤ levels - 1 := by
    rw [eventsToJson, Json.depth_array_le_iff, List.forall_mem_map] at h
    exact h.2 event hevent
  rw [Event.toJson, Json.depth_object_le_iff, List.forall_mem_map] at hobject
  obtain ⟨member, hmember, hvalue⟩ := List.mem_map.mp (toJson_mem_members _ part hpart)
  rw [← hvalue]
  exact hobject.2 member (List.mem_cons_of_mem _ (List.mem_cons_of_mem _ hmember))

theorem numberFree_toJson (event : Event) : event.toJson.NumberFree := by
  rw [Event.toJson, Json.numberFree_object_iff, List.forall_mem_map, List.forall_mem_cons,
    List.forall_mem_cons]
  refine ⟨trivial, trivial, ?_⟩
  obtain ⟨id, action⟩ := event
  cases action <;> simp [Action.members, Expr.numberFree_toJson, Json.NumberFree]

theorem Event.jsonCanonical_beq {event : Event} (h : event.AnnotatesApps) :
    (event.jsonCanonical == event) = true := by
  have hsame (e : Expr) (he : e.AnnotatesApps) : (e.jsonCanonical == e) = true :=
    Expr.jsonCanonical_same he
  obtain ⟨id, action⟩ := event
  show (id == id && action.jsonCanonical.same action) = true
  simp only [Event.AnnotatesApps] at h
  cases action <;> simp_all [Action.parts, Action.jsonCanonical, Action.same]

theorem map_jsonCanonical_beq {events : List Event} (h : ∀ event ∈ events, event.AnnotatesApps) :
    (events.map Event.jsonCanonical == events) = true := by
  induction events with
  | nil => rfl
  | cons event events ih =>
    rw [List.forall_mem_cons] at h
    rw [List.map_cons, List.cons_beq_cons, Event.jsonCanonical_beq h.1, ih h.2]
    rfl

theorem Action.code_jsonCanonical (action : Action) : action.jsonCanonical.code = action.code := by
  cases action <;> rfl

section Events

variable {events : List Event}

theorem takes_arrayOf_readEvent (hids : ∀ event ∈ events, event.FitsWords)
    (hdepth : (eventsToJson events).depth ≤ Json.maxLevels) :
    (arrayOf readEvent).Takes (eventsText events).toList (events.map Event.jsonCanonical) := by
  rw [eventsText, eventsToJson, Json.toList_compact_array, List.map_map]
  refine takes_arrayOf ?_ ?_
  · rw [List.forall₂_map_left_iff, List.forall₂_map_right_iff, List.forall₂_same]
    exact fun event hevent =>
      takes_readEvent (hids event hevent) (depth_part_le hdepth event hevent)
  · rw [List.forall_mem_map]
    exact fun event _ => opens_compact (numberFree_toJson event)

theorem opens_eventsText (events : List Event) : Opens (eventsText events).toList := by
  rw [eventsText, eventsToJson, Json.toList_compact_array]
  exact ⟨'[', rfl, by decide, by decide, by decide⟩

/-- **Big-map events survive JSON.** Events with ids of 64 bits whose expressions carry no
annotations on literals and sequences are read back from their text as the same events in the same
order, if the text has few enough levels; in particular every action remains what it is. -/
theorem eventsOfText_eventsText (hids : ∀ event ∈ events, event.FitsWords)
    (happs : ∀ event ∈ events, event.AnnotatesApps)
    (hdepth : (eventsToJson events).depth ≤ Json.maxLevels) :
    ∃ events', eventsOfText (eventsText events) = .ok events' ∧ (events' == events) = true ∧
      events'.map (·.action.code) = events.map (·.action.code) := by
  refine ⟨events.map Event.jsonCanonical, ?_, map_jsonCanonical_beq happs, ?_⟩
  · rw [eventsOfText,
      run_of_takes (takes_arrayOf_readEvent hids hdepth) (opens_eventsText events)]
    rfl
  · rw [List.map_map]
    exact List.map_congr_left fun event _ => Action.code_jsonCanonical event.action

end Events

/-- An entry that is set to `None`, one that is removed, a new map with the least id, and a copy to
the greatest. -/
def farEvents : List Event := [
  ⟨7, .update .zero (.app (.data .pair) [.int (-65), .string "a"] ["%k", "@two words"] true)
    (.app (.data .none) [])⟩,
  ⟨-1, .remove .zero (.seq [.bytes [0xca, 0xfe]])⟩,
  ⟨-9223372036854775808, .alloc (.plainType .nat) (.app (.type .list) [.plainType .int] [""])⟩,
  ⟨9223372036854775807, .copy 7 9223372036854775807⟩]

theorem eventsOfText_eventsText_far :
    (∀ event ∈ farEvents, event.FitsWords) ∧ (∀ event ∈ farEvents, event.AnnotatesApps) ∧
      (eventsToJson farEvents).depth ≤ Json.maxLevels ∧
      ∃ events', eventsOfText (eventsText farEvents) = .ok events' ∧
        (events' == farEvents) = true ∧
        events'.map (·.action.code) = [.update, .remove, .alloc, .copy] := by
  have hids : ∀ event ∈ farEvents, event.FitsWords := by decide
  have happs : ∀ event ∈ farEvents, event.AnnotatesApps := by decide
  have hdepth : (eventsToJson farEvents).depth ≤ Json.maxLevels := by decide
  exact ⟨hids, happs, hdepth, eventsOfText_eventsText hids happs hdepth⟩

end Michelson.BigMap
