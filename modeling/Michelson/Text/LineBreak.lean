import Michelson.Text.BreakClass
import Michelson.Text.Width

/-!
# Where a line may end

A line may end between two characters unless they hold on to each other. Rules on the classes of
the characters around a place decide, the first that speaks of it: a line ends after a space, a
hyphen or a slash and on either side of an ideograph, but not before a closing bracket, not after
an opening quotation mark and the spaces after it, and not within a number.

## Main definitions

* `LineBreak.Cluster`: a character and the marks that join it
* `LineBreak.rules`: the rules, in order
* `LineBreak.allows`: whether a line may end between two stretches of a text
* `LineBreak.places`: for each character of a text, whether a line may end after it

## Main results

* `LineBreak.length_places`: each character has its place
-/

namespace Michelson.Text.LineBreak

open BreakClass

/-! ### Clusters -/

/-- **A character and the marks that join it.** -/
structure Cluster where
  /-- The class of the character. -/
  kind : BreakClass
  /-- Whether the character is made for the grid of East Asian text. -/
  eastAsian : Bool
  /-- How many marks join it. -/
  marks : Nat
  /-- Whether the last of its characters is a zero-width joiner. -/
  joining : Bool

/-- Whether a class is one of marks. -/
def isMark (kind : BreakClass) : Bool := kind = combiningMark || kind = zeroWidthJoiner

/-- Whether marks join a character of a class: no end of a line and no space has marks. -/
def takesMarks (kind : BreakClass) : Bool :=
  !([mandatory, carriageReturn, lineFeed, nextLine, space, zeroWidthSpace].contains kind)

/-- The cluster of a character that joins none before it: a mark that stands alone is a letter. -/
def Cluster.single (c : Char) : Cluster :=
  let kind := ofChar c
  ⟨if isMark kind then letter else kind, !isMark kind && isEastAsian c, 0, kind = zeroWidthJoiner⟩

@[simp] theorem Cluster.marks_single (c : Char) : (Cluster.single c).marks = 0 := rfl

/-- The clusters of a text of which the first has begun. -/
def clustersFrom (current : Cluster) : List Char → List Cluster
  | [] => [current]
  | c :: rest =>
    if isMark (ofChar c) && takesMarks current.kind then
      clustersFrom
        { current with marks := current.marks + 1, joining := ofChar c = zeroWidthJoiner } rest
    else current :: clustersFrom (.single c) rest

/-- The clusters of a text. -/
def clusters : List Char → List Cluster
  | [] => []
  | c :: rest => clustersFrom (.single c) rest

/-! ### Rules

A place lies between two lists of clusters: those before it, the nearest first, and those after
it. -/

/-- Whether the nearest cluster is of one of the classes. -/
def near (kinds : List BreakClass) : List Cluster → Bool
  | [] => false
  | c :: _ => kinds.contains c.kind

/-- Whether there is no cluster, or the nearest is of one of the classes. -/
def edgeOr (kinds : List BreakClass) : List Cluster → Bool
  | [] => true
  | c :: _ => kinds.contains c.kind

/-- Whether there is no cluster, or the nearest is not East Asian. -/
def edgeOrNarrow : List Cluster → Bool
  | [] => true
  | c :: _ => !c.eastAsian

/-- The clusters without the spaces that are nearest. -/
def skipSpaces (side : List Cluster) : List Cluster := side.dropWhile (·.kind = space)

/-- A rule: the places that it speaks of, and whether lines may end there. -/
structure Rule where
  /-- Whether the rule speaks of the place between two lists of clusters. -/
  covers : List Cluster → List Cluster → Bool
  /-- Whether lines may end there. -/
  opens : Bool

/-- A rule that keeps characters together. -/
def keep (covers : List Cluster → List Cluster → Bool) : Rule := ⟨covers, false⟩

/-- A rule that lets a line end. -/
def part (covers : List Cluster → List Cluster → Bool) : Rule := ⟨covers, true⟩

/-- A class of the first ones and one of the second ones after it stay together. -/
def pair (first second : List BreakClass) : Rule :=
  keep fun before after => near first before && near second after

/-- A class of the first ones stays with what follows. -/
def holdsNext (kinds : List BreakClass) : Rule := keep fun before _ => near kinds before

/-- A class of the second ones stays with what precedes. -/
def holdsLast (kinds : List BreakClass) : Rule := keep fun _ after => near kinds after

/-- The letters. -/
def letters : List BreakClass := [letter, dottedCircle, hebrewLetter]

/-- The closing brackets. -/
def closings : List BreakClass := [closePunctuation, closeParenthesis]

/-- The quotation marks. -/
def quotations : List BreakClass := [openQuotation, closeQuotation, quotation]

/-- The ends of lines. -/
def lineEnds : List BreakClass := [mandatory, carriageReturn, lineFeed, nextLine]

/-- The signs around numbers. -/
def numberSigns : List BreakClass := [beforeNumber, afterNumber]

/-- The ideographs and pictures. -/
def ideographs : List BreakClass := [ideograph, emojiBase, emojiModifier, futurePicture]

/-- The consonants, vowels and syllables of Hangul. -/
def hangul : List BreakClass :=
  [leadingConsonant, vowel, trailingConsonant, openSyllable, closedSyllable]

/-- The letters of Brahmic scripts that begin a syllable. -/
def syllables : List BreakClass := [syllable, dottedCircle, syllableStart]

/-- The rules on ends of lines, spaces and characters that hold on to both neighbours. -/
def spaceRules : List Rule := [
  pair [carriageReturn] [lineFeed],
  part fun before _ => near lineEnds before,
  holdsLast (lineEnds ++ [space, zeroWidthSpace]),
  part fun before _ => near [zeroWidthSpace] (skipSpaces before),
  keep fun before _ => (before.head?.map (·.joining)).getD false,
  holdsNext [wordJoiner, glue],
  holdsLast [wordJoiner],
  keep fun before after => near [glue] after && !near [space, breakAfter, hyphen] before]

/-- Whether a quotation opens before a place, apart from spaces: an opening mark stands there, after
a space, another mark or an opening bracket. -/
def opensQuotation (before : List Cluster) : Bool :=
  match skipSpaces before with
  | [] => false
  | mark :: rest =>
    mark.kind = openQuotation
      && edgeOr (lineEnds ++ quotations ++ [openPunctuation, glue, space, zeroWidthSpace]) rest

/-- Whether a quotation closes after a place: a closing mark stands there, before a space, another
mark, a closing bracket or a stop. -/
def closesQuotation : List Cluster → Bool
  | [] => false
  | mark :: rest =>
    mark.kind = closeQuotation
      && edgeOr (lineEnds ++ quotations ++ closings ++
        [space, glue, wordJoiner, exclamation, separator, slash, zeroWidthSpace]) rest

/-- The rules on brackets, stops and quotation marks, some with spaces between. -/
def bracketRules : List Rule := [
  holdsLast (closings ++ [exclamation, separator, slash]),
  keep fun before _ => near [openPunctuation] (skipSpaces before),
  keep fun before _ => opensQuotation before,
  keep fun _ after => closesQuotation after,
  keep fun before after => near closings (skipSpaces before) && near [nonstarter] after,
  keep fun before after => near [dash] (skipSpaces before) && near [dash] after,
  part fun before _ => near [space] before,
  holdsLast quotations,
  holdsNext quotations,
  part fun before after => near [contingent] before || near [contingent] after]

/-- The rules on hyphens, dots and characters at which a line does not begin. -/
def hyphenRules : List Rule := [
  holdsLast [breakAfter, hyphen, nonstarter],
  holdsNext [breakBefore],
  keep fun before _ => near [hyphen, breakAfter] before && near [hebrewLetter] (before.drop 1),
  pair [slash] [hebrewLetter],
  holdsLast [inseparable]]

/-- The rules on words and numbers. -/
def numberRules : List Rule := [
  pair letters [numeric],
  pair [numeric] letters,
  pair [beforeNumber] ideographs,
  pair ideographs [afterNumber],
  pair numberSigns letters,
  pair letters numberSigns,
  pair (closings ++ [numeric]) numberSigns,
  pair numberSigns [openPunctuation, numeric],
  pair [hyphen, separator, numeric, slash] [numeric]]

/-- The rules on syllables. -/
def syllableRules : List Rule := [
  pair [leadingConsonant] [leadingConsonant, vowel, openSyllable, closedSyllable],
  pair [vowel, openSyllable] [vowel, trailingConsonant],
  pair [trailingConsonant, closedSyllable] [trailingConsonant],
  pair hangul [afterNumber],
  pair [beforeNumber] hangul,
  pair letters letters,
  pair [syllablePrebase] syllables,
  pair syllables [virama, finalVirama],
  keep fun before after =>
    near [virama] before && near syllables (before.drop 1) && near [syllable, dottedCircle] after,
  keep fun before after =>
    near syllables before && near syllables after && near [finalVirama] (after.drop 1)]

/-- The rules on letters beside brackets, flags and pictures. -/
def signRules : List Rule := [
  pair [separator] letters,
  keep fun before after =>
    near (numeric :: letters) before && near [openPunctuation] after && edgeOrNarrow after,
  keep fun before after =>
    near [closeParenthesis] before && edgeOrNarrow before && near (numeric :: letters) after,
  keep fun before after =>
    near [regionalIndicator] after
      && (before.takeWhile (·.kind = regionalIndicator)).length % 2 = 1,
  pair [emojiBase, futurePicture] [emojiModifier]]

/-- **The rules for breaking lines**, in order. A place that none speaks of is open. -/
def rules : List Rule :=
  spaceRules ++ bracketRules ++ hyphenRules ++ numberRules ++ syllableRules ++ signRules

/-- **Whether a line may end** between the clusters before a place, the nearest first, and those
after it. -/
def allows (before after : List Cluster) : Bool :=
  match rules.find? fun rule => rule.covers before after with
  | some rule => rule.opens
  | none => true

/-! ### Places -/

/-- For each character of the clusters after a place, whether a line may end after it: not within
a cluster, and always at the end. -/
def placesFrom (before : List Cluster) : List Cluster → List Bool
  | [] => []
  | c :: after =>
    List.replicate c.marks false
      ++ (after.isEmpty || allows (c :: before) after) :: placesFrom (c :: before) after

/-- For each character of a text, whether a line may end after it. -/
def places (text : List Char) : List Bool := placesFrom [] (clusters text)

/-- How many characters some clusters have. -/
def size : List Cluster → Nat
  | [] => 0
  | c :: rest => c.marks + 1 + size rest

theorem length_placesFrom (before cs : List Cluster) : (placesFrom before cs).length = size cs := by
  induction cs generalizing before with
  | nil => rfl
  | cons c rest ih => simp [placesFrom, size, ih]; omega

theorem size_clustersFrom (current : Cluster) (text : List Char) :
    size (clustersFrom current text) = current.marks + 1 + text.length := by
  fun_induction clustersFrom current text with
  | case1 current => rfl
  | case2 current c rest h ih => simp only [ih, List.length_cons]; omega
  | case3 current c rest h ih => simp only [size, ih, Cluster.marks_single, List.length_cons]; omega

/-- Each character of a text has its place. -/
theorem length_places (text : List Char) : (places text).length = text.length := by
  rw [places, length_placesFrom]
  cases text with
  | nil => rfl
  | cons c rest =>
    rw [clusters, size_clustersFrom, Cluster.marks_single, List.length_cons, Nat.add_comm]

end Michelson.Text.LineBreak
