import Michelson.Text.Alphanumeric
import Michelson.Text.ControlSequence
import Michelson.Text.LineBreak
import Michelson.Text.Width

/-!
# Wrapped text

Text is wrapped between words: each line takes as many words as fit. A word ends where a line may
end, and after a hyphen between letters or digits; spaces after the last word of a line are
dropped, and a word that is wider than a line is cut.

## Main definitions

* `Word`: a word and the spaces after it
* `words`: the words of a line
* `fill`: words put on lines
* `wrap`: the lines of a text of a given width

## Main results

* `flatMap_words`: the words with their spaces are the line
* `flatten_fill`: no word is lost, and their order is kept
* `spread_le_of_mem_fill`: no line is wider than asked if no word is
-/

namespace Michelson.Text

/-! ### Cutting -/

/-- The pieces of a list that end with the marked elements. -/
def cut {α : Type} : List (α × Bool) → List (List α)
  | [] => []
  | (a, false) :: rest =>
    match cut rest with
    | [] => [[a]]
    | piece :: others => (a :: piece) :: others
  | (a, true) :: rest => [a] :: cut rest

theorem flatten_cut {α : Type} (l : List (α × Bool)) : (cut l).flatten = l.map (·.1) := by
  fun_induction cut l with
  | case1 => rfl
  | case2 a rest hcut ih => simpa [hcut] using ih
  | case3 a rest piece others hcut ih => simpa [hcut] using ih
  | case4 a rest ih => rw [List.flatten_cons, ih, List.map_cons, List.singleton_append]

/-! ### Words -/

/-- **A word**, and the spaces after it. -/
structure Word where
  /-- The word. -/
  text : List Char
  /-- The spaces after it. -/
  spaces : List Char

namespace Word

/-- The characters of a word and its spaces. -/
def chars (w : Word) : List Char := w.text ++ w.spaces

/-- The columns of some characters of which some are not shown. -/
def columnsOf : List (Char × Bool) → Nat
  | [] => 0
  | (c, seen) :: rest => (if seen then columns c else 0) + columnsOf rest

/-- How many columns a word takes without its spaces. -/
def width (w : Word) : Nat := columnsOf (marked w.text)

/-- The word that some characters hold. -/
def ofChars (cs : List Char) : Word :=
  ⟨(cs.reverse.dropWhile (· = ' ')).reverse, (cs.reverse.takeWhile (· = ' ')).reverse⟩

/-- The words that are the pieces of a word: the spaces follow the last. -/
def ofPieces : List (List Char) → List Char → List Word
  | [], spaces => [⟨[], spaces⟩]
  | [piece], spaces => [⟨piece, spaces⟩]
  | piece :: others, spaces => ⟨piece, []⟩ :: ofPieces others spaces

/-- The characters of a word, each with whether it is a hyphen between letters or digits. -/
def hyphens (afterLetter : Bool) : List Char → List (Char × Bool)
  | [] => []
  | c :: rest =>
    (c, c = '-' && afterLetter && rest.head?.any isAlphanumeric)
      :: hyphens (isAlphanumeric c) rest

/-- The parts of a word that end with its hyphens. -/
def parts (w : Word) : List Word := ofPieces (cut (hyphens false w.text)) w.spaces

/-- The pieces of some characters that are not wider than a line of which some columns are
used: the first, which goes on that line, and the others. -/
def chop (limit used : Nat) : List (Char × Bool) → List Char × List (List Char)
  | [] => ([], [])
  | (c, seen) :: rest =>
    let size := if seen then columns c else 0
    if seen && 0 < used && limit < used + size then
      let (piece, others) := chop limit size rest
      ([], (c :: piece) :: others)
    else
      let (piece, others) := chop limit (used + size) rest
      (c :: piece, others)

/-- A word, in pieces if it is wider than a line. -/
def fitting (limit : Nat) (w : Word) : List Word :=
  if w.width ≤ limit then [w]
  else
    let (piece, others) := chop limit 0 (marked w.text)
    ofPieces (piece :: others) w.spaces

theorem chars_ofChars (cs : List Char) : (ofChars cs).chars = cs := by
  rw [chars, ofChars, ← List.reverse_append, List.takeWhile_append_dropWhile, List.reverse_reverse]

theorem flatMap_ofPieces (pieces : List (List Char)) (spaces : List Char) :
    (ofPieces pieces spaces).flatMap chars = pieces.flatten ++ spaces := by
  fun_induction ofPieces pieces spaces with
  | case1 spaces => simp [chars]
  | case2 piece spaces => simp [chars]
  | case3 piece others spaces _ ih =>
    rw [List.flatMap_cons, ih, chars, List.append_nil, List.flatten_cons, List.append_assoc]

theorem map_fst_hyphens (afterLetter : Bool) (cs : List Char) :
    (hyphens afterLetter cs).map (·.1) = cs := by
  induction cs generalizing afterLetter with
  | nil => rfl
  | cons c rest ih => simp [hyphens, ih]

theorem flatMap_parts (w : Word) : w.parts.flatMap chars = w.chars := by
  rw [parts, flatMap_ofPieces, flatten_cut, map_fst_hyphens, chars]

theorem chop_append (limit used : Nat) (cs : List (Char × Bool)) :
    (chop limit used cs).1 ++ (chop limit used cs).2.flatten = cs.map (·.1) := by
  fun_induction chop limit used cs with
  | case1 => rfl
  | case2 used c seen rest size _ piece others hchop ih => simpa [hchop] using ih
  | case3 used c seen rest size _ piece others hchop ih => simpa [hchop] using ih

theorem flatMap_fitting (limit : Nat) (w : Word) : (w.fitting limit).flatMap chars = w.chars := by
  rw [fitting]
  split
  · simp
  · rw [flatMap_ofPieces, List.flatten_cons, chop_append, map_fst_marked, chars]

end Word

/-- The marks without the last one: what follows it belongs to the last word. -/
def dropLastMark : List Bool → List Bool
  | [] => []
  | mark :: rest => (mark && rest.any id) :: dropLastMark rest

/-- For each character of a text, whether a word ends after it and another follows. A hyphen,
visible or soft, ends no word by itself. -/
def wordEnds (text : List Char) : List Bool :=
  dropLastMark (List.zipWith (fun c opens => opens && c != '-' && c != '\u00ad') text
    (LineBreak.places text))

/-- The marks of the characters that are shown, given to all: no word ends after the others. -/
def spreadMarks : List (Char × Bool) → List Bool → List (Char × Bool)
  | [], _ => []
  | (c, true) :: rest, mark :: marks => (c, mark) :: spreadMarks rest marks
  | (c, _) :: rest, marks => (c, false) :: spreadMarks rest marks

theorem map_fst_spreadMarks (cs : List (Char × Bool)) (marks : List Bool) :
    (spreadMarks cs marks).map (·.1) = cs.map (·.1) := by
  fun_induction spreadMarks cs marks with
  | case1 => rfl
  | case2 c rest mark marks ih => rw [List.map_cons, ih, List.map_cons]
  | case3 c shown rest marks _ ih => rw [List.map_cons, ih, List.map_cons]

/-- **The words of a line**, none wider than a given width. -/
def words (limit : Nat) (line : List Char) : List Word :=
  (cut (spreadMarks (marked line) (wordEnds (shown line)))).flatMap fun cs =>
    (Word.ofChars cs).parts.flatMap (·.fitting limit)

/-- No character is lost between the words. -/
theorem flatMap_words (limit : Nat) (line : List Char) :
    (words limit line).flatMap Word.chars = line := by
  have word (cs : List Char) :
      ((Word.ofChars cs).parts.flatMap (·.fitting limit)).flatMap Word.chars = cs := by
    rw [List.flatMap_assoc]
    simp only [Word.flatMap_fitting, Word.flatMap_parts, Word.chars_ofChars]
  rw [words, List.flatMap_assoc]
  simp only [word]
  rw [List.flatMap_id', flatten_cut, map_fst_spreadMarks, map_fst_marked]

/-! ### Lines -/

/-- The width of words on one line: the spaces at its end are not counted. -/
def spread : List Word → Nat
  | [] => 0
  | [w] => w.width
  | w :: others => w.width + w.spaces.length + spread others

/-- The characters of words on one line, without the spaces at its end. -/
def lineOf : List Word → List Char
  | [] => []
  | [w] => w.text
  | w :: others => w.chars ++ lineOf others

/-- **Words put on lines**, of which the first has begun: each takes as many as fit. -/
def fill (limit : Nat) (line : List Word) : List Word → List (List Word)
  | [] => [line]
  | w :: others =>
    if line.isEmpty || spread (line ++ [w]) ≤ limit then fill limit (line ++ [w]) others
    else line :: fill limit [w] others

/-- No word is lost between the lines. -/
theorem flatten_fill (limit : Nat) (line ws : List Word) :
    (fill limit line ws).flatten = line ++ ws := by
  fun_induction fill limit line ws with
  | case1 line => simp
  | case2 line w others _ ih => rw [ih, List.append_assoc, List.singleton_append]
  | case3 line w others _ ih => rw [List.flatten_cons, ih, List.singleton_append]

/-- No line is wider than asked if no word is. -/
theorem spread_le_of_mem_fill {limit : Nat} {line ws : List Word} (begun : spread line ≤ limit)
    (narrow : ∀ w ∈ ws, w.width ≤ limit) : ∀ l ∈ fill limit line ws, spread l ≤ limit := by
  fun_induction fill limit line ws with
  | case1 line => simpa using begun
  | case2 line w others h ih =>
    refine ih ?_ fun v hv => narrow v (List.mem_cons_of_mem _ hv)
    simp only [Bool.or_eq_true, decide_eq_true_eq, List.isEmpty_iff] at h
    rcases h with rfl | h
    · exact narrow w (List.mem_cons_self ..)
    · exact h
  | case3 line w others h ih =>
    intro l hl
    rcases List.mem_cons.1 hl with rfl | hl
    · exact begun
    · exact ih (narrow w (List.mem_cons_self ..))
        (fun v hv => narrow v (List.mem_cons_of_mem _ hv)) l hl

/-- The lines of a text, of which none is wider than asked. -/
def wrap (limit : Nat) (text : String) : List String :=
  (text.splitOn "\n").flatMap fun line =>
    (fill limit [] (words limit line.toList)).map fun ws => String.ofList (lineOf ws)

end Michelson.Text
