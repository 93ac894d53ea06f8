/-!
# JSON values

A number is an integer of at most 64 bits or a float. The members of an object are kept in
order; a value in normal form has them sorted by name, each name once.

## Main definitions

* `Json`: a JSON value
* `Json.member?`: the member of an object with a given name
* `Json.sortMembers`: members sorted by name, the last of each name kept
-/

namespace Michelson

/-- A JSON number. -/
inductive Json.Number where
  | integer (value : Int)
  | float (value : Float)
  deriving Repr

/-- **A JSON value.** -/
inductive Json where
  | null
  | bool (value : Bool)
  | number (value : Json.Number)
  | string (value : String)
  | array (items : List Json)
  | object (members : List (String × Json))
  deriving Inhabited, Repr

namespace Json

/-- The text of a JSON string. -/
def string? : Json → Option String
  | string s => some s
  | _ => none

/-- The items of a JSON array. -/
def array? : Json → Option (List Json)
  | array xs => some xs
  | _ => none

/-- The value of a JSON truth value. -/
def bool? : Json → Option Bool
  | bool b => some b
  | _ => none

/-- The value of a JSON integer. -/
def integer? : Json → Option Int
  | number (.integer n) => some n
  | _ => none

/-- The first member with a given name. -/
def lookup? (name : String) (members : List (String × Json)) : Option Json :=
  (members.find? fun m => m.1 == name).map (·.2)

/-- The member of an object with a given name. -/
def member? (value : Json) (name : String) : Option Json :=
  match value with
  | object members => lookup? name members
  | _ => none

/-- Of neighbours with one name, the last. -/
def keepLast : List (String × Json) → List (String × Json)
  | a :: b :: rest => if a.1 = b.1 then keepLast (b :: rest) else a :: keepLast (b :: rest)
  | ms => ms

/-- Members sorted by name, the last of each name kept. -/
def sortMembers (members : List (String × Json)) : List (String × Json) :=
  keepLast (members.mergeSort fun a b => a.1 ≤ b.1)

mutual
/-- The value with the members of every object sorted. -/
def sorted : Json → Json
  | array xs => array (sortedAll xs)
  | object ms => object (sortMembers (sortedMembers ms))
  | v => v
/-- The values with the members of every object sorted. -/
def sortedAll : List Json → List Json
  | [] => []
  | x :: xs => sorted x :: sortedAll xs
/-- Members with sorted values. -/
def sortedMembers : List (String × Json) → List (String × Json)
  | [] => []
  | (name, v) :: ms => (name, sorted v) :: sortedMembers ms
end

end Json

end Michelson
