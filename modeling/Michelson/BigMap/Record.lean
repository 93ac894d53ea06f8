import Michelson.BigMap.Event
import Michelson.Binary.Codec

/-!
# Records of big-map events

In a stream of bytes an event is a record: the id of the map in four bytes, the byte of the
action, and an expression with the contents.

| action | contents |
|---|---|
| update | `Pair (Pair key key_hash) value` |
| remove | `Pair (Pair key key_hash) None` |
| copy | `Pair source destination` |
| alloc | `Pair key_type value_type` |

## Main definitions

* `BigMap.Action.payload`, `BigMap.Action.ofPayload`: the contents as an expression
* `BigMap.Writer`: what appends to a buffer and may fail
* `BigMap.writeEvent`, `BigMap.encodeEvents`: events as records
* `BigMap.decodeEvents`: the events of a stream
-/

namespace Michelson.BigMap

/-- Whether an id fits in 32 bits. -/
def fitsId (id : Int) : Bool := -0x80000000 ≤ id && id < 0x80000000

/-- An id that has to fit in 32 bits. -/
def checkId (id : Int) : Except Error Int :=
  if fitsId id then .ok id else .error (.idOutOfRange id)

/-- A pair value. -/
def pairOf (left right : Expr) : Expr := .app (.data .pair) [left, right]

/-- A key and its hash. -/
def entryOf (key : Expr) (keyHash : ExprHash) : Expr := pairOf key (.bytes keyHash.bytes.1)

/-- The contents of an action as an expression. -/
def Action.payload : Action → Expr
  | update keyHash key value => pairOf (entryOf key keyHash) value
  | remove keyHash key => pairOf (entryOf key keyHash) (.app (.data .none) [])
  | copy source destination => pairOf (.int source) (.int destination)
  | alloc keyType valueType => pairOf keyType valueType

/-- The two arguments of an expression that has to have two. -/
def splitPair (action : ActionCode) : Expr → Except Error (Expr × Expr)
  | .app _ [left, right] _ _ => .ok (left, right)
  | e => .error (.payload action e.describe)

/-- The key and the hash of an entry. -/
def splitEntry (action : ActionCode) (entry : Expr) : Except Error (Expr × ExprHash) := do
  let (key, hash) ← splitPair action entry
  match hash with
  | .bytes b _ => match ExprHash.ofBytes b with
    | .ok h => return (key, h)
    | .error _ => throw (.keyHashLength b.length)
  | e => throw (.payload action e.describe)

/-- The id in the contents of a copy. -/
def copyId (e : Expr) : Except Error Int :=
  match e with
  | .int id _ => checkId id
  | e => .error (.payload .copy e.describe)

/-- The action with the given contents. -/
def Action.ofPayload (code : ActionCode) (payload : Expr) : Except Error Action := do
  let (left, right) ← splitPair code payload
  match code with
  | .update =>
    let (key, hash) ← splitEntry code left
    return .update hash key right
  | .remove => match right with
    | .app (.data .none) [] _ _ =>
      let (key, hash) ← splitEntry code left
      return .remove hash key
    | e => throw (.payload code e.describe)
  | .copy =>
    let source ← copyId left
    return .copy source (← copyId right)
  | .alloc => return .alloc left right

/-- The four bytes of an id; a negative one is counted from 2³². -/
def idBytes (id : Int) : List UInt8 := Binary.big4 (id % 0x100000000).toNat

/-- The id with the given bytes. -/
def idOfBytes (bytes : List UInt8) : Int :=
  let n := Binary.spell bytes
  if n < 0x80000000 then n else (n : Int) - 0x100000000

/-- **A writer** appends bytes to a buffer and may fail; what it has appended before it fails stays
there. -/
abbrev Writer := ExceptT Error (StateM (List UInt8))

namespace Writer

/-- Appends bytes. -/
def put (bytes : List UInt8) : Writer Unit := modify (· ++ bytes)

/-- What a writer answers, and the buffer after it. -/
def runOn {α : Type} (writer : Writer α) (buffer : List UInt8) : Except Error α × List UInt8 :=
  StateT.run (ExceptT.run writer) buffer

end Writer

/-- The ids in the record of an event, in the order in which they are checked. -/
def Event.ids (event : Event) : List Int :=
  match event.action with
  | .copy source destination => [event.id, source, destination]
  | _ => [event.id]

/-- Checks that all ids of an event fit in 32 bits. -/
def checkIds (event : Event) : Except Error Unit :=
  event.ids.forM fun id => discard (checkId id)

/-- **Appends the record of an event.** Its ids have to fit in 32 bits, which is checked before
anything is written. -/
def writeEvent (event : Event) : Writer Unit := do
  checkIds event
  Writer.put (idBytes event.id)
  Writer.put [event.action.code.toByte]
  Writer.put event.action.payload.encode

/-- **The records of events**, one after the other. -/
def encodeEvents (events : List Event) : Except Error (List UInt8) :=
  let (result, buffer) := (events.forM writeEvent).runOn []
  result.map fun _ => buffer

/-- The events of records of which the first starts at the given offset. As fuel serves the
stream, since each record takes a byte. -/
def decodeRecords : List UInt8 → Nat → List UInt8 → Except Error (List Event)
  | _, _, [] => .ok []
  | _ :: fuel, offset, a :: b :: c :: d :: byte :: rest =>
    match ActionCode.ofByte? byte with
    | none => .error (.unknownAction byte (offset + 4))
    | some code => do
      let (payload, used) ← match Expr.decodeFront rest with
        | .ok result => pure result
        | .error (.truncated _) => throw (.truncated offset)
        | .error e => throw (.decode e)
      let action ← Action.ofPayload code payload
      let events ← decodeRecords fuel (offset + 5 + used) (rest.drop used)
      return ⟨idOfBytes [a, b, c, d], action⟩ :: events
  | _, offset, _ => .error (.truncated offset)

/-- **The events of a stream.** -/
def decodeEvents (bytes : List UInt8) : Except Error (List Event) := decodeRecords bytes 0 bytes

end Michelson.BigMap
