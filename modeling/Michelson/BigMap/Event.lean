import Michelson.Expr.DecodeError
import Michelson.Identifier.Hash
import Michelson.Typedef.Derive

/-!
# Big-map events

A big map changes by events: an entry is set or removed, a map is allocated with the types of
its keys and values, or a map is copied.

## Main definitions

* `BigMap.Action`, `BigMap.Event`: what happens, and to which map
* `BigMap.ActionCode`: the actions without their contents
* `BigMap.EventFault`, `BigMap.Error`: why events cannot be read or written
-/

namespace Michelson.BigMap

/-- The actions without their contents. -/
inductive ActionCode where
  | update | remove | copy | alloc
  deriving DecidableEq, Repr

namespace ActionCode

/-- The byte of an action. -/
def toByte : ActionCode → UInt8
  | update => 0
  | remove => 1
  | copy => 2
  | alloc => 3

/-- The action of a byte. -/
def ofByte? (byte : UInt8) : Option ActionCode := [update, remove, copy, alloc][byte.toNat]?

@[simp] theorem ofByte?_toByte (code : ActionCode) : ofByte? code.toByte = some code := by
  cases code <;> rfl

/-- The name of an action. -/
def name : ActionCode → String
  | update => "update"
  | remove => "remove"
  | copy => "copy"
  | alloc => "alloc"

end ActionCode

/-- **What happens to a big map.** -/
inductive Action where
  | update (keyHash : ExprHash) (key value : Expr)
  | remove (keyHash : ExprHash) (key : Expr)
  | alloc (keyType valueType : Expr)
  | copy (source destination : Int)

/-- The action without its contents. -/
def Action.code : Action → ActionCode
  | update .. => .update
  | remove .. => .remove
  | alloc .. => .alloc
  | copy .. => .copy

/-- **An event**: an action and the id of the map that it concerns. -/
structure Event where
  id : Int
  action : Action

/-- What makes a JSON value no event. -/
inductive EventFault where
  /-- An event lacks a member that its action needs. -/
  | missing (action member : String)
  /-- No action has the name. -/
  | unknownAction (name : String)
  /-- A text is no id. -/
  | invalidId (text : String)
  /-- A text is no key hash. -/
  | keyHash (cause : IdentifierError)
  /-- A value is no expression. -/
  | expression (cause : DecodeError)

/-- The wording of a fault. -/
def EventFault.text : EventFault → String
  | missing action member => s!"`{action}` event without `{member}`"
  | unknownAction name => s!"unknown action `{name}`"
  | invalidId text => s!"invalid big-map id `{text}`"
  | keyHash cause => cause.diagnostic.message
  | expression cause => cause.diagnostic.message

/-- Why events cannot be read or written. -/
inductive Error where
  /-- The record at the offset is incomplete. -/
  | truncated (offset : Nat)
  /-- The byte at the offset is no action. -/
  | unknownAction (byte : UInt8) (offset : Nat)
  /-- The contents of a record do not have the form that its action asks for. -/
  | payload (action : ActionCode) (found : String)
  /-- An id does not fit in 32 bits. -/
  | idOutOfRange (id : Int)
  /-- A key hash has the wrong number of bytes. -/
  | keyHashLength (found : Nat)
  /-- A text is no list of events; nothing more is known of the cause if it is not JSON of the
  right form. -/
  | json (fault : Option EventFault)
  /-- The contents of a record are no expression. -/
  | decode (cause : DecodeError)
  /-- An expression is no type. -/
  | type (cause : TypeError)

/-- How the failure is reported. -/
def Error.diagnostic : Error → Diagnostic
  | truncated offset =>
    ⟨"micheline::bigmap::truncated", s!"truncated big-map record at offset {offset}", none⟩
  | unknownAction byte offset =>
    ⟨"micheline::bigmap::action",
      s!"unknown big-map action 0x{Text.Hex.encode [byte]} at offset {offset}", none⟩
  | payload action found =>
    ⟨"micheline::bigmap::payload",
      s!"malformed {action.name} payload: expected a pair, found {found}", none⟩
  | idOutOfRange id =>
    ⟨"micheline::bigmap::id", s!"big-map id {id} does not fit in 32 bits", none⟩
  | keyHashLength found =>
    ⟨"micheline::bigmap::key_hash", s!"key hash must be 32 bytes, found {found}", none⟩
  | json fault =>
    let cause := (fault.map EventFault.text).getD "not a list of events"
    ⟨"micheline::bigmap::json", s!"invalid big-map event JSON: {cause}", none⟩
  | decode cause => cause.diagnostic
  | type cause => cause.diagnostic

end Michelson.BigMap
