import Michelson.Command.Run

/-!
# The command line

Reads what a command needs, runs it, and writes its outcome.
-/

namespace Michelson.Command

/-- The contents of a file, if it can be read as text. -/
def readFile? (path : String) : IO (Option String) := do
  try
    return some (← IO.FS.readFile path)
  catch _ => return none

/-- What is left of the standard input. -/
partial def readRest (input : IO.FS.Stream) (read : ByteArray) : IO ByteArray := do
  let bytes ← input.read 65536
  if bytes.isEmpty then return read else readRest input (read ++ bytes)

/-- The inputs of a command: the contents of its sources. -/
def observe (sources : List Source) : IO Inputs := do
  let files ← (sources.filterMap Source.path?).mapM fun path => do
    let contents ← readFile? path
    return (path, contents)
  let input ← if sources.contains .standardInput then
      readRest (← IO.getStdin) ByteArray.empty
    else pure ByteArray.empty
  return ⟨fun path => (files.lookup path).join, String.fromUTF8? input⟩

end Michelson.Command

open Michelson Command in
def main (arguments : List String) : IO UInt32 := do
  let sources := (ofArguments arguments).toOption.elim [] Command.sources
  let outcome := execute arguments (← observe sources)
  IO.print outcome.output
  IO.eprint outcome.report
  return outcome.status.toUInt32
