import Michelson.Decimal.Shortest
import Michelson.Json.Basic

/-!
# JSON text

The compact form has no blanks; the pretty form puts each item and each member on a line of its
own, indented by two spaces a level. Both keep the order of the members.

## Main definitions

* `Json.floatText`: how floats are laid out
* `Json.escape`: the characters that show a character in a string
* `Json.compact`, `Json.pretty`: the two forms
-/

namespace Michelson.Json

/-- Floats keep a `.0` if they are whole; from `1e+16` up and below `1e-5` they have an
exponent. -/
def floatText : Decimal.FloatText where
  leastPositional := -5
  greatestPositional := 15
  wholeEnding := ".0"
  exponentMark := "e+"
  negativeExponentMark := "e-"

/-- The text of a number. -/
def Number.text : Number → String
  | integer n => toString n
  | float x => floatText.render x

/-- The characters that show `c` within a JSON string. -/
def escape (c : Char) : List Char :=
  if c = '"' then ['\\', '"']
  else if c = '\\' then ['\\', '\\']
  else if c = '\x08' then ['\\', 'b']
  else if c = '\x0c' then ['\\', 'f']
  else if c = '\n' then ['\\', 'n']
  else if c = '\r' then ['\\', 'r']
  else if c = '\t' then ['\\', 't']
  else if c.toNat < 0x20 then
    ['\\', 'u', '0', '0', Nat.digitChar (c.toNat / 16), Nat.digitChar (c.toNat % 16)]
  else [c]

/-- A text as a JSON string. -/
def quote (s : String) : String := "\"" ++ String.ofList (s.toList.flatMap escape) ++ "\""

mutual
/-- The compact text of a value. -/
def compact : Json → String
  | null => "null"
  | bool true => "true"
  | bool false => "false"
  | number n => n.text
  | string s => quote s
  | array xs => "[" ++ String.intercalate "," (compactItems xs) ++ "]"
  | object ms => "\x7b" ++ String.intercalate "," (compactMembers ms) ++ "\x7d"
/-- The compact texts of items. -/
def compactItems : List Json → List String
  | [] => []
  | x :: xs => compact x :: compactItems xs
/-- The compact texts of members. -/
def compactMembers : List (String × Json) → List String
  | [] => []
  | (name, v) :: ms => (quote name ++ ":" ++ compact v) :: compactMembers ms
end

/-- A line break and the indentation of a level. -/
def newline (level : Nat) : String := String.ofList ('\n' :: List.replicate (2 * level) ' ')

/-- Texts on lines of their own, one level deeper than the brackets around them. -/
def block (level : Nat) (opening closing : String) (texts : List String) : String :=
  if texts.isEmpty then opening ++ closing
  else
    let separator := newline (level + 1)
    opening ++ separator ++ String.intercalate ("," ++ separator) texts
      ++ newline level ++ closing

mutual
/-- The pretty text of a value that stands on a given level. -/
def prettyAt (level : Nat) : Json → String
  | array xs => block level "[" "]" (prettyItems (level + 1) xs)
  | object ms => block level "\x7b" "\x7d" (prettyMembers (level + 1) ms)
  | null => "null"
  | bool true => "true"
  | bool false => "false"
  | number n => n.text
  | string s => quote s
/-- The pretty texts of items. -/
def prettyItems (level : Nat) : List Json → List String
  | [] => []
  | x :: xs => prettyAt level x :: prettyItems level xs
/-- The pretty texts of members. -/
def prettyMembers (level : Nat) : List (String × Json) → List String
  | [] => []
  | (name, v) :: ms => (quote name ++ ": " ++ prettyAt level v) :: prettyMembers level ms
end

/-- The text of a value over several lines. -/
def pretty (value : Json) : String := prettyAt 0 value

end Michelson.Json
