import Michelson.BigMap.Event
import Michelson.Command.Basic
import Michelson.Marshal.Error
import Michelson.Text.Wrapped
import Michelson.Typing.Conformance

/-!
# Failures of commands

## Main definitions

* `Command.Failure`: why a command fails
* `Command.Failure.status`, `Command.Failure.report`: its exit status, and what is said about it
-/

namespace Michelson.Command

/-- Why a command fails. -/
inductive Failure where
  /-- A source cannot be read as text. -/
  | unreadable (source : Source)
  /-- A text is no expression. -/
  | notExpression (source : Source) (cause : DecodeError)
  /-- A text is not JSON. -/
  | notJson (source : Source)
  /-- A text is not hexadecimal. -/
  | notHex (source : Source) (cause : Text.Hex.Fault)
  /-- A parameter has no entrypoint of the name. -/
  | noEntrypoint (name : String)
  /-- An expression is no type. -/
  | type (cause : TypeError)
  /-- No value can be built. -/
  | marshal (cause : MarshalError)
  /-- Events cannot be read or written. -/
  | events (cause : BigMap.Error)
  /-- A value does not conform to a type. -/
  | mismatch (type value : Source) (cause : Mismatch)

/-- The width of a line of a report. -/
def reportWidth : Nat := 78

/-- The lines of a paragraph: the first has a mark and the others a rule in front of them. -/
def paragraph (mark rule text : String) : List String :=
  match Text.wrap (reportWidth - mark.length) text with
  | [] => [mark]
  | first :: others => (mark ++ first) :: others.map (rule ++ ·)

/-- The lines of a report: the code if there is one, the message, its cause and an advice. -/
def reportLines (code : Option String) (message : String) (cause help : Option String) :
    List String :=
  (match code with | some code => [code, ""] | none => []) ++
  paragraph "  × " "  │ " message ++
  (match cause with | some cause => paragraph "  ╰─▶ " "      " cause | none => []) ++
  (match help with | some help => paragraph "  help: " "        " help | none => [])

/-- The lines about a failure that has a diagnostic of its own. -/
def diagnosticLines (d : Diagnostic) : List String :=
  reportLines (some d.code) d.message none d.help

namespace Failure

/-- The lines about a failure. -/
def lines : Failure → List String
  | unreadable .standardInput => reportLines none "failed to read stdin" none none
  | unreadable (.file path) => reportLines none s!"failed to read `{path}`" none none
  | notExpression source cause =>
    let d := cause.diagnostic
    reportLines (some d.code) s!"`{source.text}` is not Micheline JSON" (some d.message) d.help
  | notJson source => reportLines none s!"`{source.text}` is not JSON" none none
  | notHex source cause =>
    reportLines none s!"`{source.text}` is not hex" (some cause.message) none
  | noEntrypoint name => reportLines none s!"the parameter has no entrypoint `{name}`" none none
  | type cause => diagnosticLines cause.diagnostic
  | marshal .disordered => [(MarshalError.diagnostic .disordered).message]
  | marshal cause => diagnosticLines cause.diagnostic
  | events cause => diagnosticLines cause.diagnostic
  | mismatch _ _ cause => diagnosticLines cause.diagnostic

/-- How a value's source is named where a value does not conform. -/
def valueName : Source → String
  | .standardInput => "<stdin>"
  | .file path => path

/-- What comes before the lines about a failure. -/
def heading : Failure → String
  | mismatch given value _ =>
    s!"{valueName value}: value does not conform to `{given.text}`\n"
  | marshal .disordered => ""
  | _ => "Error: "

/-- The exit status. A run that is given up has one of its own. -/
def status : Failure → Nat
  | marshal .disordered => 101
  | _ => 1

/-- **What is said about a failure.** -/
def report (failure : Failure) : String :=
  failure.heading ++ String.join (failure.lines.map (· ++ "\n"))

end Failure

end Michelson.Command
