/-!
# Control sequences

A text may hold sequences that a terminal obeys and does not show: each begins with the escape
character. One that goes on with `[` ends with a character from `@` to `~`; one that goes on with
`]` ends with a bell or with an escape character and a backslash; any other has one character
more.

## Main definitions

* `Reading`: how far a control sequence is read
* `marked`: the characters of a text, each with whether it is shown

## Main results

* `map_fst_marked`: all characters are marked, in their order
-/

namespace Michelson.Text

/-- How far a control sequence is read. -/
inductive Reading where
  /-- There is none. -/
  | none
  /-- The escape character is read. -/
  | escape
  /-- The sequence ends with a character from `@` to `~`. -/
  | control
  /-- The sequence ends with a bell, or with an escape character and a backslash. -/
  | command (closing : Bool)

/-- The escape character. -/
def escapeChar : Char := '\x1b'

/-- The reading after one more character, and whether it is shown. -/
def Reading.next (c : Char) : Reading → Reading × Bool
  | none => if c = escapeChar then (escape, false) else (none, true)
  | escape => (if c = '[' then control else if c = ']' then command false else none, false)
  | control => (if '@' ≤ c && c ≤ '~' then none else control, false)
  | command closing =>
    (if c = '\x07' || (closing && c = '\\') then none else command (c = escapeChar), false)

/-- The characters after a reading, each with whether it is shown. -/
def markedFrom : Reading → List Char → List (Char × Bool)
  | _, [] => []
  | reading, c :: rest => (c, (reading.next c).2) :: markedFrom (reading.next c).1 rest

/-- **The characters of a text, each with whether it is shown.** -/
def marked (text : List Char) : List (Char × Bool) := markedFrom .none text

/-- The characters of a text that are shown. -/
def shown (text : List Char) : List Char := ((marked text).filter (·.2)).map (·.1)

theorem map_fst_markedFrom (reading : Reading) (text : List Char) :
    (markedFrom reading text).map (·.1) = text := by
  induction text generalizing reading with
  | nil => rfl
  | cons c rest ih => simp [markedFrom, ih]

/-- All characters are marked, in their order. -/
theorem map_fst_marked (text : List Char) : (marked text).map (·.1) = text :=
  map_fst_markedFrom .none text

end Michelson.Text
