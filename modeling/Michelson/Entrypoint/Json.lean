import Michelson.Entrypoint.Interface
import Michelson.Expr.Json
import Michelson.Typedef.Json

/-!
# The JSON form of entrypoints

## Main definitions

* `Entrypoint.toJson`: the JSON value of an entrypoint
* `Interface.toJson`: the JSON value of an interface, its name
-/

namespace Michelson

/-- The JSON value of an entrypoint. -/
def Entrypoint.toJson (entry : Entrypoint) : Json :=
  .object [("id", .number (.integer entry.id)), ("name", .string entry.name),
    ("branch", .string (branchText entry.branch)),
    ("typedef", .array (entry.arguments.map Typedef.toJson)), ("prim", entry.leaf.toJson)]

/-- The JSON value of an interface is its name. -/
def Interface.toJson (interface : Interface) : Json := .string interface.name

end Michelson
