/-!
# Blanks

The characters that separate words: the property `White_Space` of Unicode.

## Main definitions

* `isBlank`: whether a character is a blank
* `trim`: a text without the blanks at its ends
-/

namespace Michelson.Text

/-- Whether a character is a blank. -/
def isBlank (c : Char) : Bool :=
  let n := c.toNat
  (0x09 ≤ n && n ≤ 0x0D) || n == 0x20 || n == 0x85 || n == 0xA0 || n == 0x1680
    || (0x2000 ≤ n && n ≤ 0x200A) || n == 0x2028 || n == 0x2029 || n == 0x202F || n == 0x205F
    || n == 0x3000

/-- Characters without the blanks at the end. -/
def trimEnd (cs : List Char) : List Char := (cs.reverse.dropWhile isBlank).reverse

/-- A text without the blanks at its ends. -/
def trim (text : String) : String := String.ofList (trimEnd (text.toList.dropWhile isBlank))

end Michelson.Text
