import Michelson.Json.Literal

/-!
# Reading JSON text

A reader takes something from the front of a text or stops. It stops for one of two causes: the
text is not JSON, or it is but says something that the reader refuses. Readers for arrays and
objects are built from readers for their items and members, so that a document can be read
piece by piece and the first fault in it decides.

## Main definitions

* `Stop`, `Reader`: why a reader stops, and readers
* `Reader.arrayOf`, `Reader.objectOf`: readers of arrays and objects
* `Reader.value levels`: any value in which arrays and objects are nested at most so deep
* `Reader.skipValue`: passes over a value of any depth
* `Reader.run`: reads a whole document
* `Json.parse?`: the value of a document, with sorted members
-/

namespace Michelson.Json

/-- Why a reader stops. -/
inductive Stop (ε : Type) where
  /-- The text is not JSON of the kind that is asked for. -/
  | malformed
  /-- The reader refuses what it has read. -/
  | refused (reason : ε)
  deriving Repr

/-- **A reader** takes something from the front of a text. -/
abbrev Reader (ε : Type) := StateT (List Char) (Except (Stop ε))

/-- Whether a character is a blank between tokens. -/
def isBlank (c : Char) : Bool := c == ' ' || c == '\t' || c == '\n' || c == '\r'

/-- The value of four hexadecimal digits. -/
def hexValue? (a b c d : Char) : Option Nat :=
  [a, b, c, d].foldlM (fun n x =>
    if x.isDigit then some (16 * n + (x.toNat - '0'.toNat))
    else if 'a' ≤ x && x ≤ 'f' then some (16 * n + (x.toNat - 'a'.toNat + 10))
    else if 'A' ≤ x && x ≤ 'F' then some (16 * n + (x.toNat - 'A'.toNat + 10))
    else none) 0

/-- Whether a 16-bit unit is the first of a surrogate pair. -/
def isHighSurrogate (unit : Nat) : Bool := 0xd800 ≤ unit && unit < 0xdc00

/-- Whether a 16-bit unit is the second of a surrogate pair. -/
def isLowSurrogate (unit : Nat) : Bool := 0xdc00 ≤ unit && unit < 0xe000

/-- The character that an escape of one letter stands for. -/
def unescape? (c : Char) : Option Char :=
  if c = '"' || c = '\\' || c = '/' then some c
  else if c = 'b' then some '\x08'
  else if c = 'f' then some '\x0c'
  else if c = 'n' then some '\n'
  else if c = 'r' then some '\r'
  else if c = 't' then some '\t'
  else none

/-- The rest of a string after its opening quote, with what was read so far in reverse, and
what follows its closing quote. A surrogate has to be one of a pair. -/
def scanString? (acc : List Char) : List Char → Option (String × List Char)
  | [] => none
  | '"' :: rest => some (String.ofList acc.reverse, rest)
  | '\\' :: 'u' :: a :: b :: c :: d :: rest =>
    match hexValue? a b c d, rest with
    | none, _ => none
    | some unit, '\\' :: 'u' :: a' :: b' :: c' :: d' :: rest' =>
      if isLowSurrogate unit then none
      else if isHighSurrogate unit then
        match hexValue? a' b' c' d' with
        | some low =>
          if isLowSurrogate low then
            let code := 0x10000 + 0x400 * (unit - 0xd800) + (low - 0xdc00)
            scanString? (Char.ofNat code :: acc) rest'
          else none
        | none => none
      else scanString? (Char.ofNat unit :: acc) ('\\' :: 'u' :: a' :: b' :: c' :: d' :: rest')
    | some unit, rest =>
      if isLowSurrogate unit || isHighSurrogate unit then none
      else scanString? (Char.ofNat unit :: acc) rest
  | '\\' :: c :: rest => match unescape? c with
    | some x => scanString? (x :: acc) rest
    | none => none
  | c :: rest => if c.toNat < 0x20 then none else scanString? (c :: acc) rest

/-- What follows the closing quote of a string, in which any surrogate may stand. -/
def skipString? : List Char → Option (List Char)
  | [] => none
  | '"' :: rest => some rest
  | '\\' :: 'u' :: a :: b :: c :: d :: rest =>
    if (hexValue? a b c d).isSome then skipString? rest else none
  | '\\' :: c :: rest => if (unescape? c).isSome then skipString? rest else none
  | c :: rest => if c.toNat < 0x20 then none else skipString? rest

namespace Reader

variable {ε α σ : Type}

/-- Stops at a text that is not JSON. -/
def malformed : Reader ε α := throw .malformed

/-- Refuses what was read. -/
def refuse (reason : ε) : Reader ε α := throw (.refused reason)

/-- Goes on with the result of a pure scanner. -/
def scan (scanner : List Char → Option (α × List Char)) : Reader ε α := fun s =>
  match scanner s with
  | some result => .ok result
  | none => .error .malformed

/-- Passes over blanks. -/
def skipBlanks : Reader ε Unit := modify (·.dropWhile isBlank)

/-- The next character, which stays in place. -/
def peek? : Reader ε (Option Char) := return (← get).head?

/-- Passes over a character that has to come next. -/
def expect (c : Char) : Reader ε Unit := scan fun
  | x :: rest => if x = c then some ((), rest) else none
  | [] => none

/-- Passes over a word that has to come next. -/
def expectWord (word : String) : Reader ε Unit := scan fun s =>
  if word.toList.isPrefixOf s then some ((), s.drop word.length) else none

/-- A string, from its opening quote on. -/
def string : Reader ε String := do
  expect '"'
  scan (scanString? [])

/-- A number. -/
def number : Reader ε Number := scan fun s => do
  let (literal, rest) ← Literal.scan? s
  return (← literal.number?, rest)

/-- The further items of an array up to its closing bracket. As fuel serves the text at the
first item, since each item takes a character. -/
def moreItems (item : Reader ε α) : List Char → List α → Reader ε (List α)
  | [], _ => malformed
  | _ :: fuel, acc => do
    skipBlanks
    match ← peek? with
    | some ']' => do
      expect ']'
      return acc.reverse
    | some ',' => do
      expect ','
      let x ← item
      moreItems item fuel (x :: acc)
    | _ => malformed

/-- An array, from its opening bracket on. -/
def arrayOf (item : Reader ε α) : Reader ε (List α) := do
  expect '['
  skipBlanks
  match ← peek? with
  | some ']' => do
    expect ']'
    return []
  | _ => do
    let fuel ← get
    let x ← item
    moreItems item fuel [x]

/-- A member of an object: its name, and then what `member` reads under that name. -/
def memberOf (member : σ → String → Reader ε σ) (state : σ) : Reader ε σ := do
  skipBlanks
  let name ← string
  skipBlanks
  expect ':'
  member state name

/-- The further members of an object up to its closing brace. -/
def moreMembers (member : σ → String → Reader ε σ) : List Char → σ → Reader ε σ
  | [], _ => malformed
  | _ :: fuel, state => do
    skipBlanks
    match ← peek? with
    | some '\x7d' => do
      expect '\x7d'
      return state
    | some ',' => do
      expect ','
      let next ← memberOf member state
      moreMembers member fuel next
    | _ => malformed

/-- An object, from its opening brace on; each member changes a state. -/
def objectOf (member : σ → String → Reader ε σ) (start : σ) : Reader ε σ := do
  expect '\x7b'
  skipBlanks
  match ← peek? with
  | some '\x7d' => do
    expect '\x7d'
    return start
  | _ => do
    let fuel ← get
    let state ← memberOf member start
    moreMembers member fuel state

/-- A value that is neither array nor object. -/
def scalar : Reader ε Json := do
  match ← peek? with
  | some 'n' => do
    expectWord "null"
    return .null
  | some 't' => do
    expectWord "true"
    return .bool true
  | some 'f' => do
    expectWord "false"
    return .bool false
  | some '"' => return .string (← string)
  | _ => return .number (← number)

/-- **Any value** in which arrays and objects are nested at most `levels` deep, with sorted
members. -/
def value : Nat → Reader ε Json
  | 0 => do
    skipBlanks
    scalar
  | levels + 1 => do
    skipBlanks
    match ← peek? with
    | some '[' => return .array (← arrayOf (value levels))
    | some '\x7b' => do
      let members ← objectOf (fun acc name => do return (name, ← value levels) :: acc) []
      return .object (sortMembers members.reverse)
    | _ => scalar

/-- An open array or object. -/
inductive Bracket where
  | array | object
  deriving DecidableEq

/-- Passes over the name of a member and the colon after it. -/
def skipName : Reader ε Unit := do
  skipBlanks
  expect '"'
  scan fun s => (skipString? s).map ((), ·)
  skipBlanks
  expect ':'

/-- Passes over what closes values and over the comma before the next value, if one is still
open. The answer says which brackets are open there. -/
def skipClosing : List Char → List Bracket → Reader ε (List Bracket)
  | _, [] => return []
  | [], _ => malformed
  | _ :: fuel, bracket :: outer => do
    skipBlanks
    match ← peek?, bracket with
    | some ',', .array => do
      expect ','
      return bracket :: outer
    | some ',', .object => do
      expect ','
      skipName
      return bracket :: outer
    | some ']', .array => do
      expect ']'
      skipClosing fuel outer
    | some '\x7d', .object => do
      expect '\x7d'
      skipClosing fuel outer
    | _, _ => malformed

/-- Passes over values until no bracket is open. -/
def skipOpen : List Char → List Bracket → Reader ε Unit
  | [], _ => malformed
  | _ :: fuel, brackets => do
    skipBlanks
    let remaining ← match ← peek? with
      | some '[' => do
        expect '['
        skipBlanks
        if (← peek?) = some ']' then skipClosing (← get) (.array :: brackets)
        else pure (.array :: brackets)
      | some '\x7b' => do
        expect '\x7b'
        skipBlanks
        if (← peek?) = some '\x7d' then skipClosing (← get) (.object :: brackets)
        else do
          skipName
          pure (.object :: brackets)
      | some '"' => do
        expect '"'
        scan fun s => (skipString? s).map ((), ·)
        skipClosing (← get) brackets
      | some 'n' => do
        expectWord "null"
        skipClosing (← get) brackets
      | some 't' => do
        expectWord "true"
        skipClosing (← get) brackets
      | some 'f' => do
        expectWord "false"
        skipClosing (← get) brackets
      | _ => do
        scan fun s => (Literal.scan? s).map fun (_, rest) => ((), rest)
        skipClosing (← get) brackets
    if remaining.isEmpty then return () else skipOpen fuel remaining

/-- Passes over a value of any depth. Its numbers may be of any size and its strings may hold
any surrogates. -/
def skipValue : Reader ε Unit := do skipOpen (← get) []

/-- What a reader makes of a whole document, blanks around it aside. -/
def run (reader : Reader ε α) (text : String) : Except (Stop ε) α :=
  let document : Reader ε α := do
    skipBlanks
    let x ← reader
    skipBlanks
    if (← get).isEmpty then return x else malformed
  (document text.toList).map (·.1)

end Reader

/-- The number of levels that arrays and objects may be nested in a document. -/
def maxLevels : Nat := 127

/-- **The value of a document** in which arrays and objects are nested at most `levels` deep,
with sorted members; of several members with one name the last counts. -/
def parse? (levels : Nat) (text : String) : Option Json :=
  ((Reader.value (ε := Empty) levels).run text).toOption

end Michelson.Json
