import Michelson.Expr.Basic
import Michelson.Text.Hex

/-!
# Michelson text

The concrete syntax of expressions: a sequence stands in braces with semicolons between its
items, texts are quoted, bytes are hexadecimal digits after `0x`, and an application is its
primitive, its annotations and its arguments. An application with arguments or annotations
stands in parentheses when it is itself an argument.

## Main definitions

* `Expr.text`: the text of an expression
-/

namespace Michelson.Expr

mutual
/-- The text of an expression, in parentheses where an argument needs them. -/
def textWithin (asArgument : Bool) : Expr → String
  | int n _ => toString n
  | string s _ => Text.quote s
  | bytes b _ => "0x" ++ Text.Hex.encode b
  | seq [] _ => "\x7b\x7d"
  | seq (x :: xs) _ =>
    "\x7b " ++ String.intercalate " ; " (textWithin false x :: itemTexts xs) ++ " \x7d"
  | app p xs as _ =>
    let bare := String.intercalate " " (p.name :: as ++ argTexts xs)
    if asArgument && !(xs.isEmpty && as.isEmpty) then "(" ++ bare ++ ")" else bare
/-- The texts of the items of a sequence. -/
def itemTexts : List Expr → List String
  | [] => []
  | x :: xs => textWithin false x :: itemTexts xs
/-- The texts of arguments. -/
def argTexts : List Expr → List String
  | [] => []
  | x :: xs => textWithin true x :: argTexts xs
end

/-- **The text of an expression** in Michelson syntax. -/
def text (e : Expr) : String := textWithin false e

end Michelson.Expr
