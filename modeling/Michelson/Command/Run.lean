import Michelson.BigMap.Detection
import Michelson.BigMap.Json
import Michelson.Command.Failure
import Michelson.Entrypoint.Json
import Michelson.Expr.Printer
import Michelson.Marshal.Value
import Michelson.Text.Blank
import Michelson.Typing.Inference

/-!
# Running commands

A command reads its sources one after the other and writes a text, or it fails and writes none.
What can be read and what is left of a run are values, so a command is a function.

## Main definitions

* `Command.Inputs`: what can be read
* `Command.run`: what a command writes
* `Command.Outcome`: what is left of a run
* `Command.execute`: the outcome of arguments
-/

namespace Michelson.Command

/-- **What can be read**: the contents of the files that can be read as text, and what is left of
the standard input if that is text. -/
structure Inputs where
  file? : String → Option String
  standardInput? : Option String

/-- What a source holds, and the inputs after it is read. The standard input can be read once. -/
def Inputs.read? (inputs : Inputs) : Source → Option (String × Inputs)
  | .file path => (inputs.file? path).map (·, inputs)
  | .standardInput => inputs.standardInput?.map (·, { inputs with standardInput? := some "" })

/-- The actions of a command. -/
abbrev Action := StateT Inputs (Except Failure)

/-- Goes on with a result, or fails for its cause. -/
def attempt {ε α : Type} (failure : ε → Failure) (result : Except ε α) : Action α :=
  liftM (result.mapError failure)

/-- Reads a source. -/
def readText (source : Source) : Action String := fun inputs =>
  match inputs.read? source with
  | some read => .ok read
  | none => .error (.unreadable source)

/-- Reads an expression in its JSON form. -/
def readExpr (source : Source) : Action Expr := do
  attempt (.notExpression source) (Expr.ofJsonText (← readText source))

/-- Reads a JSON value. -/
def readJson (source : Source) : Action Json := do
  match Json.parse? Json.maxLevels (← readText source) with
  | some value => return value
  | none => throw (.notJson source)

/-- Reads bytes in their hexadecimal form, with blanks around it. -/
def readBytes (source : Source) : Action (List UInt8) := do
  attempt (.notHex source) (Text.Hex.decode (Text.trim (← readText source)))

/-- A text as a line. -/
def line (text : String) : String := text ++ "\n"

/-- A value as lines. -/
def jsonLines (value : Json) : String := line value.pretty

/-- A text followed by spaces so that it has at least a given length. -/
def padEnd (width : Nat) (text : String) : String :=
  text ++ String.ofList (List.replicate (width - text.length) ' ')

/-- A text after spaces so that it has at least a given length. -/
def padStart (width : Nat) (text : String) : String :=
  String.ofList (List.replicate (width - text.length) ' ') ++ text

/-- The line about an entrypoint: its id, the way to it, its name and its argument. -/
def entrypointLine (entry : Entrypoint) : String :=
  let branch := if entry.branch.isEmpty then "/" else branchText entry.branch
  line (padStart 3 (toString entry.id) ++ " " ++ padEnd 12 branch ++ " " ++ entry.name ++ ": " ++
    entry.signature.text)

/-- The line about the interfaces that a contract satisfies, if there are some. -/
def interfaceLine : List Interface → String
  | [] => ""
  | interfaces => line ("interfaces: " ++ ", ".intercalate (interfaces.map Interface.name))

/-- The lines about entrypoints. -/
def entrypointLines (es : Entrypoints) : String :=
  String.join (es.entries.map entrypointLine) ++ interfaceLine (es.interfaces false)

/-- The JSON value of entrypoints. Its members are sorted. -/
def entrypointsJson (es : Entrypoints) : Json :=
  .sorted (.object [("entrypoints", .array (es.entries.map Entrypoint.toJson)),
    ("interfaces", .array ((es.interfaces false).map Interface.toJson))])

/-- The typedef that a value is built for: that of a type, or of the argument of an entrypoint. -/
def target (type : Expr) : Option String → Action Typedef
  | none => attempt .type (Typedef.derive type "root")
  | some name => do
    match (← attempt .type (Entrypoints.discover type [])).get? name with
    | some entry => return entry.signature
    | none => throw (.noEntrypoint name)

/-- **What a command writes.** -/
def run : Command → Action String
  | typedef input name unfold text => do
    let t ← attempt .type (Typedef.derive (← readExpr input) name)
    let t := if unfold then t.unfold else t
    return if text then line t.text else jsonLines t.toJson
  | entrypoints input keep json => do
    let es ← attempt .type (Entrypoints.discover (← readExpr input) keep)
    return if json then jsonLines (entrypointsJson es) else entrypointLines es
  | infer input view => do
    let value ← readExpr input
    match view with
    | .text => return line value.inferType.text
    | .json => return jsonLines value.inferType.toJson
    | .typedef => return jsonLines (← attempt .type (Typedef.infer value "value")).toJson
  | check type value => do
    let t ← attempt .type (Typedef.derive (← readExpr type) "root")
    attempt (.mismatch type value) (t.check (← readExpr value))
    return ""
  | marshal type value entrypoint form text => do
    let t ← target (← readExpr type) entrypoint
    let e ← attempt .marshal (t.marshal form (← readJson value))
    return if text then line e.text else jsonLines e.toJson
  | decodeEvents input => do
    let events ← attempt .events (BigMap.decodeEvents (← readBytes input))
    return jsonLines (BigMap.eventsToJson events)
  | encodeEvents input => do
    let events ← attempt .events (BigMap.eventsOfText (← readText input))
    return line (Text.Hex.encode (← attempt .events (BigMap.encodeEvents events)))
  | detect type storage => do
    let type ← readExpr type
    let found ← attempt .events (BigMap.detect type (← readExpr storage))
    return jsonLines (.object (found.map fun (name, id) => (name, .number (.integer id))))

/-- **What is left of a run**: the exit status, what is written and what is reported. -/
structure Outcome where
  status : Nat
  output : String
  report : String
  deriving DecidableEq, Repr

/-- The outcome of arguments that make no command. -/
def interrupted : Interruption → Outcome
  | .notice text => ⟨0, text, ""⟩
  | why => ⟨2, "", s!"error: {why.message}\n\n{usage}"⟩

/-- The outcome of a command. -/
def outcome (command : Command) (inputs : Inputs) : Outcome :=
  match command.run.run inputs with
  | .ok (output, _) => ⟨0, output, ""⟩
  | .error failure => ⟨failure.status, "", failure.report⟩

/-- **The outcome of arguments.** -/
def execute (arguments : List String) (inputs : Inputs) : Outcome :=
  match ofArguments arguments with
  | .ok command => command.outcome inputs
  | .error why => interrupted why

end Michelson.Command
