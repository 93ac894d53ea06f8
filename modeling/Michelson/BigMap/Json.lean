import Michelson.BigMap.Event
import Michelson.Expr.Json

/-!
# The JSON form of big-map events

A list of events is an array of objects. The member `action` names the action, the others hold
its contents; a missing member and a null one are the same. Ids are written as text and read from
text or from an integer. A list is read from its text from front to back, and the first fault
decides; members that have no meaning are passed over. An array with the values of the
members in their order is read, too.

## Main definitions

* `BigMap.Event.toJson`, `BigMap.eventsText`: events as JSON
* `BigMap.Member`, `BigMap.Draft`: the members of an event, and an event with some of them
* `BigMap.Draft.finish`: the event of a draft
* `BigMap.eventsOfText`: the events in a text
-/

namespace Michelson.BigMap

open Json (Reader Stop)

/-- The members of an event. -/
inductive Member where
  | action | bigMap | keyHash | key | value | keyType | valueType | source | destination
  deriving DecidableEq, Repr

namespace Member

/-- Every member, in the order in which they are written. -/
def all : List Member :=
  [action, bigMap, keyHash, key, value, keyType, valueType, source, destination]

/-- The name of a member. -/
def name : Member → String
  | action => "action"
  | bigMap => "big_map"
  | keyHash => "key_hash"
  | key => "key"
  | value => "value"
  | keyType => "key_type"
  | valueType => "value_type"
  | source => "source_big_map"
  | destination => "destination_big_map"

end Member

/-- The contents of an action as members. -/
def Action.members : Action → List (Member × Json)
  | update keyHash key value =>
    [(.keyHash, .string keyHash.text), (.key, key.toJson), (.value, value.toJson)]
  | remove keyHash key => [(.keyHash, .string keyHash.text), (.key, key.toJson)]
  | alloc keyType valueType => [(.keyType, keyType.toJson), (.valueType, valueType.toJson)]
  | copy source destination =>
    [(.source, .string (toString source)), (.destination, .string (toString destination))]

/-- **The JSON value of an event.** -/
def Event.toJson (event : Event) : Json :=
  let members : List (Member × Json) :=
    (.action, .string event.action.code.name) :: (.bigMap, .string (toString event.id))
      :: event.action.members
  .object (members.map fun (member, value) => (member.name, value))

/-- The JSON value of a list of events. -/
def eventsToJson (events : List Event) : Json := .array (events.map Event.toJson)

/-- The compact JSON text of a list of events. -/
def eventsText (events : List Event) : String := (eventsToJson events).compact

/-- The members of an event that were read so far. -/
structure Draft where
  seen : List Member := []
  action : Option String := none
  bigMap : Option Int := none
  keyHash : Option ExprHash := none
  key : Option Expr := none
  value : Option Expr := none
  keyType : Option Expr := none
  valueType : Option Expr := none
  source : Option Int := none
  destination : Option Int := none

/-- The number of levels that arrays and objects may be nested within a member: two fewer than
in a document. -/
def memberLevels : Nat := Json.maxLevels - 2

/-- Reads null as nothing, and anything else with the given reader. -/
def optional {α : Type} (reader : Reader EventFault α) : Reader EventFault (Option α) := do
  Reader.skipBlanks
  if (← Reader.peek?) = some 'n' then do
    Reader.expectWord "null"
    return none
  else return some (← reader)

/-- Reads an id. -/
def readId : Reader EventFault Int := do
  match ← Reader.value memberLevels with
  | .string text => match Text.readSigned? text with
    | some id => return id
    | none => Reader.refuse (.invalidId text)
  | .number (.integer id) => if Text.fitsWord id then return id else Reader.malformed
  | _ => Reader.malformed

/-- Reads a key hash. -/
def readKeyHash : Reader EventFault ExprHash := do
  match ExprHash.ofText (← Reader.string) with
  | .ok hash => return hash
  | .error e => Reader.refuse (.keyHash e)

/-- Reads an expression. -/
def readExpr : Reader EventFault Expr := do
  match Expr.ofJson (← Reader.value memberLevels) with
  | .ok e => return e
  | .error e => Reader.refuse (.expression e)

/-- Reads the value of a member into a draft. -/
def Draft.read (draft : Draft) (member : Member) : Reader EventFault Draft := do
  let draft := { draft with seen := member :: draft.seen }
  match member with
  | .action => do
    Reader.skipBlanks
    return { draft with action := some (← Reader.string) }
  | .bigMap => return { draft with bigMap := ← optional readId }
  | .keyHash => return { draft with keyHash := ← optional readKeyHash }
  | .key => return { draft with key := ← optional readExpr }
  | .value => return { draft with value := ← optional readExpr }
  | .keyType => return { draft with keyType := ← optional readExpr }
  | .valueType => return { draft with valueType := ← optional readExpr }
  | .source => return { draft with source := ← optional readId }
  | .destination => return { draft with destination := ← optional readId }

/-- Reads a member of an object into a draft. A member that was seen before is an error, and one
that has no meaning is passed over. -/
def Draft.readNamed (draft : Draft) (name : String) : Reader EventFault Draft :=
  match Member.all.find? (·.name == name) with
  | some member => if draft.seen.contains member then Reader.malformed else draft.read member
  | none => do
    Reader.skipValue
    return draft

/-- Reads the values of members in their order up to the closing bracket of an array; `first`
says whether none was read yet. -/
def readOrdered (first : Bool) : List Member → Draft → Reader EventFault Draft
  | [], draft => do
    Reader.skipBlanks
    Reader.expect ']'
    return draft
  | member :: members, draft => do
    Reader.skipBlanks
    if (← Reader.peek?) = some ']' then do
      Reader.expect ']'
      return draft
    else do
      if !first then Reader.expect ','
      let next ← draft.read member
      readOrdered false members next

/-- The event of a draft with the given action. Only the text `update` with a value sets an
entry. A copy concerns its destination, if no other map is named. -/
def Draft.event (draft : Draft) (name : String) : Except EventFault Event := do
  let need {α : Type} (value : Option α) (member : Member) : Except EventFault α :=
    match value with
    | some x => .ok x
    | none => .error (.missing name member.name)
  let action : Action ←
    if name = "update" || name = "remove" then do
      let keyHash ← need draft.keyHash .keyHash
      let key ← need draft.key .key
      match draft.value with
      | some value =>
        pure (if name = "update" then .update keyHash key value else .remove keyHash key)
      | none => pure (.remove keyHash key)
    else if name = "alloc" then do
      let keyType ← need draft.keyType .keyType
      pure (.alloc keyType (← need draft.valueType .valueType))
    else if name = "copy" then do
      let source ← need draft.source .source
      pure (.copy source (← need draft.destination .destination))
    else throw (.unknownAction name)
  match draft.bigMap, action with
  | some id, action => return ⟨id, action⟩
  | none, .copy source destination => return ⟨destination, .copy source destination⟩
  | none, _ => throw (.missing name Member.bigMap.name)

/-- The event of a draft, which needs an action. -/
def Draft.finish (draft : Draft) : Reader EventFault Event :=
  match draft.action with
  | some name => match draft.event name with
    | .ok event => return event
    | .error fault => Reader.refuse fault
  | none => Reader.malformed

/-- Reads an event. -/
def readEvent : Reader EventFault Event := do
  Reader.skipBlanks
  let draft ← if (← Reader.peek?) = some '[' then do
      Reader.expect '['
      readOrdered true Member.all {}
    else Reader.objectOf Draft.readNamed {}
  draft.finish

/-- **The events in a text.** -/
def eventsOfText (text : String) : Except Error (List Event) :=
  ((Reader.arrayOf readEvent).run text).mapError fun
    | .malformed => .json none
    | .refused fault => .json (some fault)

end Michelson.BigMap
