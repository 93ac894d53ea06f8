import Michelson.Binary.Zarith
import Michelson.Expr.Comb

/-!
# The binary form of expressions

A node starts with a tag. Integers follow in groups of bits; texts, bytes and sequences have
their length in front. An application of at most two arguments has a tag that tells their
number and whether annotations follow; any other application writes its arguments and its
annotations with their lengths in front. The annotations are one text, separated by spaces.
Annotations of literals and sequences have no binary form.

## Main definitions

* `Expr.encode`, `Expr.pack`: the binary form, and the same after the mark of packed data
* `Expr.decodeFront`: the expression at the front of a byte string, and its length
* `Expr.decode`, `Expr.unpack`: the expression that a byte string holds
* `maxDepth`: the depth to which expressions are read
-/

namespace Michelson

namespace Binary

/-- The tags of nodes. -/
inductive NodeTag where
  | int | string | seq
  /-- An application of none, one or two arguments, with or without annotations. -/
  | app (arity : Fin 3) (annotated : Bool)
  /-- An application that writes the lengths of its arguments and annotations. -/
  | appMany
  | bytes
  deriving DecidableEq

/-- The byte of a tag. -/
def NodeTag.toByte : NodeTag → UInt8
  | int => 0
  | string => 1
  | seq => 2
  | app 0 false => 3
  | app 0 true => 4
  | app 1 false => 5
  | app 1 true => 6
  | app 2 false => 7
  | app 2 true => 8
  | appMany => 9
  | bytes => 10

/-- The tag with a given byte. -/
def NodeTag.ofByte? (byte : UInt8) : Option NodeTag :=
  [int, string, seq, app 0 false, app 0 true, app 1 false, app 1 true, app 2 false,
    app 2 true, appMany, bytes][byte.toNat]?

/-- The tag of an application with so many arguments. -/
def NodeTag.ofArity (count : Nat) (annotated : Bool) : NodeTag :=
  if h : count < 3 then app ⟨count, h⟩ annotated else appMany

@[simp] theorem NodeTag.ofByte?_toByte (tag : NodeTag) : ofByte? tag.toByte = some tag := by
  match tag with
  | int | string | seq | appMany | bytes => rfl
  | app 0 false | app 0 true | app 1 false | app 1 true | app 2 false | app 2 true => rfl

/-- Annotations as bytes: one text with spaces between them. -/
def encodeAnnots (annots : List String) : List UInt8 :=
  sized (Text.utf8 (String.intercalate " " annots))

/-- The pieces between spaces, empty ones included. -/
def pieces : List Char → List (List Char)
  | [] => [[]]
  | c :: cs =>
    if c = ' ' then [] :: pieces cs
    else match pieces cs with
      | piece :: others => (c :: piece) :: others
      | [] => [[c]]

/-- The non-empty pieces of a text between spaces. -/
def words (text : String) : List String :=
  ((pieces text.toList).filter (!·.isEmpty)).map String.ofList

/-- The annotations at the front of the input. -/
def Reader.annots : Reader (List String) := return words (← Reader.text)

/-- The primitive at the front of the input. -/
def Reader.primitive : Reader Primitive := do
  let tag ← Reader.byte
  match Primitive.ofTag? tag with
  | some p => return p
  | none => throw (.unknownOpcode tag)

/-- Expressions in bytes with their length in front, each taken by `child`. -/
def Reader.children (child : Reader Expr) : Reader (List Expr) := do
  let start ← Reader.offset
  let body ← Reader.sized
  Reader.within body (start + 4) (Reader.untilEnd child)

/-- So many expressions one after the other, each taken by `child`. -/
def Reader.exactly (child : Reader Expr) : Nat → Reader (List Expr)
  | 0 => return []
  | n + 1 => do
    let x ← child
    return x :: (← Reader.exactly child n)

/-- A node whose children are taken by `child`. -/
def Reader.node (child : Reader Expr) : Reader Expr := do
  let start ← Reader.offset
  let tag ← Reader.byte
  match NodeTag.ofByte? tag with
  | some .int => return .int (← Zarith.read)
  | some .string => return .string (← Reader.text)
  | some .bytes => return .bytes (← Reader.sized)
  | some .seq => return .seq (← Reader.children child)
  | some (.app arity annotated) => do
    let p ← Reader.primitive
    let args ← Reader.exactly child arity
    let annots ← if annotated then Reader.annots else pure []
    return .app p args annots
  | some .appMany => do
    let p ← Reader.primitive
    let args ← Reader.children child
    let annots ← Reader.annots
    return .app p args annots
  | none => throw (.unknownTag tag start)

/-- An expression in which nodes are nested at most `levels` deep. -/
def Reader.expr : Nat → Reader Expr
  | 0 => do throw (.tooDeep (← Reader.offset))
  | levels + 1 => Reader.node (Reader.expr levels)

/-- The depth to which nodes are read. -/
def maxDepth : Nat := 1000

/-- The byte in front of packed data. -/
def packMark : UInt8 := 5

end Binary

namespace Expr

open Binary

mutual
/-- **The binary form of an expression.** -/
def encode : Expr → List UInt8
  | int n _ => NodeTag.int.toByte :: Zarith.encode n
  | string s _ => NodeTag.string.toByte :: sized (Text.utf8 s)
  | bytes b _ => NodeTag.bytes.toByte :: sized b
  | seq xs _ => NodeTag.seq.toByte :: sized (encodeAll xs)
  | app p xs as _ =>
    let annotated := !as.isEmpty
    match NodeTag.ofArity xs.length annotated with
    | .appMany => NodeTag.appMany.toByte :: p.tag :: sized (encodeAll xs) ++ encodeAnnots as
    | tag =>
      tag.toByte :: p.tag :: encodeAll xs ++ if annotated then encodeAnnots as else []
/-- The binary forms of expressions, one after the other. -/
def encodeAll : List Expr → List UInt8
  | [] => []
  | x :: xs => encode x ++ encodeAll xs
end

/-- The binary form after the mark of packed data. -/
def pack (e : Expr) : List UInt8 := packMark :: e.encode

/-- The expression at the front of a byte string, and the number of bytes that it takes. -/
def decodeFront (bytes : List UInt8) : Except DecodeError (Expr × Nat) :=
  (Reader.expr maxDepth ⟨0, bytes⟩).map fun (e, cursor) => (e, cursor.offset)

/-- **The expression that a byte string holds.** -/
def decode (bytes : List UInt8) : Except DecodeError Expr := do
  let (e, used) ← decodeFront bytes
  if used = bytes.length then return e else throw (.trailingBytes (bytes.length - used))

mutual
/-- The expression with the flag set at its pairs. -/
def markPacked : Expr → Expr
  | seq xs as => seq (markPackedAll xs) as
  | app p xs as flag => app p (markPackedAll xs) as (flag || p.isPair)
  | e => e
/-- The expressions with the flag set at their pairs. -/
def markPackedAll : List Expr → List Expr
  | [] => []
  | x :: xs => markPacked x :: markPackedAll xs
end

/-- The expression in packed data. Its pairs are marked as packed. -/
def unpack : List UInt8 → Except DecodeError Expr
  | mark :: data =>
    if mark = packMark then (decode data).map markPacked else .error .missingPackMark
  | [] => .error .missingPackMark

end Expr

end Michelson
