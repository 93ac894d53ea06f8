import Michelson.Text.Printable

/-!
# Quoted text

The form in which texts and characters are shown between quotes: the delimiter, the backslash
and the common controls take a backslash, a character without a visible form of its own is
shown by its code, as in `\u{ad}`, and all others stand for themselves.

## Main definitions

* `escape delimiter c`: the characters that show `c` between two delimiters
* `quote`: a text between double quotes
* `quoteChar`: a character between single quotes
-/

namespace Michelson.Text

/-- The characters that show `c` by its code point in lower-case hexadecimal. -/
def codeEscape (c : Char) : List Char :=
  ['\\', 'u', '\x7b'] ++ Nat.toDigits 16 c.toNat ++ ['\x7d']

/-- The characters that show `c` between two delimiters. -/
def escape (delimiter c : Char) : List Char :=
  if c = '\x00' then ['\\', '0']
  else if c = '\t' then ['\\', 't']
  else if c = '\r' then ['\\', 'r']
  else if c = '\n' then ['\\', 'n']
  else if c = '\\' || c = delimiter then ['\\', c]
  else if merges c || !isPrintable c then codeEscape c
  else [c]

/-- A text between double quotes. -/
def quote (s : String) : String :=
  "\"" ++ String.ofList (s.toList.flatMap (escape '"')) ++ "\""

/-- A character between single quotes. -/
def quoteChar (c : Char) : String :=
  "'" ++ String.ofList (escape '\'' c) ++ "'"

end Michelson.Text
