import Michelson.Command.Arguments
import Michelson.Marshal.Scalar

/-!
# Commands

What the tool can be told to do. A command reads its input from files or from the standard input,
which is named by a hyphen.

## Main definitions

* `Source`: where an input comes from
* `Command`: a command with its settings
* `Command.ofArguments`: the command that arguments spell
-/

namespace Michelson

/-- Where an input comes from. -/
inductive Source where
  | standardInput
  | file (path : String)
  deriving DecidableEq, Repr

/-- The source that an argument names. -/
def Source.ofText (text : String) : Source :=
  if text = "-" then .standardInput else .file text

/-- The argument that names a source. -/
def Source.text : Source → String
  | standardInput => "-"
  | file path => path

/-- The path of a file. -/
def Source.path? : Source → Option String
  | standardInput => none
  | file path => some path

/-- The argument that names a source gives it back, unless it is a file that has the name of the
standard input. -/
theorem Source.ofText_text {source : Source} (h : source ≠ .file "-") :
    ofText source.text = source := by
  cases source with
  | standardInput => rfl
  | file path => exact if_neg fun hp : path = "-" => h (congrArg file hp)

/-- What is shown of the type that a value seems to have. -/
inductive InferenceView where
  /-- The type in Michelson text. -/
  | text
  /-- The JSON form of the type. -/
  | json
  /-- The JSON form of its typedef. -/
  | typedef
  deriving DecidableEq, Repr

/-- **A command.** -/
inductive Command where
  /-- Shows the typedef of a type. -/
  | typedef (input : Source) (name : String) (unfold text : Bool)
  /-- Lists the entrypoints of a parameter type. -/
  | entrypoints (input : Source) (keep : List String) (json : Bool)
  /-- Guesses the type of a value. -/
  | infer (input : Source) (view : InferenceView)
  /-- Checks that a value conforms to a type. -/
  | check (type value : Source)
  /-- Builds a value of a type, or of the argument of an entrypoint. -/
  | marshal (type value : Source) (entrypoint : Option String) (form : ScalarForm) (text : Bool)
  /-- Shows the big-map events that bytes stand for. -/
  | decodeEvents (input : Source)
  /-- Shows the bytes of big-map events. -/
  | encodeEvents (input : Source)
  /-- Finds the big maps in a storage. -/
  | detect (type storage : Source)
  deriving DecidableEq, Repr

namespace Command

/-- The name of the tool. -/
def tool : String := "micheline"

/-- The version of the tool. -/
def version : String := "0.1.0"

/-- A short account of the commands. -/
def usage : String :=
  s!"Usage: {tool} COMMAND\n\n" ++
  "Commands:\n" ++
  "  typedef INPUT [--name NAME] [-u | --unfold] [-t | --text]\n" ++
  "  entrypoints INPUT [--keep-or START]... [--json]\n" ++
  "  infer INPUT [--typedef | --json]\n" ++
  "  check --type FILE VALUE\n" ++
  "  marshal --type FILE VALUE [-e | --entrypoint NAME] [-o | --optimized] [-t | --text]\n" ++
  "  bigmap decode INPUT\n" ++
  "  bigmap encode INPUT\n" ++
  "  bigmap detect --type FILE STORAGE\n"

/-- The settings that every command knows. The words name the command. -/
def notices (words : List String) : List Setting :=
  let name := "-".intercalate (tool :: words)
  [⟨"help", some 'h', .notice usage⟩, ⟨"version", some 'V', .notice s!"{name} {version}\n"⟩]

/-- The setting that names the file of a type. -/
def typeSetting : Setting := ⟨"type", none, .single⟩

/-- Sorts out the arguments of a command, which is named by words. -/
def arguments (words : List String) (settings : List Setting) (rest : List String) :
    Except Interruption Arguments :=
  Arguments.read (settings ++ notices words) rest

/-- The operand of a command as a source. -/
def input (args : Arguments) : Except Interruption Source := do
  return Source.ofText (← args.operand)

/-- The type of a command as a source. -/
def typeInput (args : Arguments) : Except Interruption Source := do
  return Source.ofText (← args.value typeSetting.name)

/-- Why no command is named by arguments that start with another word. -/
def unnamed (words : List String) : List String → Except Interruption Command
  | [] => .error .missingCommand
  | "help" :: _ => .error (.notice usage)
  | word :: _ => do
    let _ ← arguments words [] [word]
    .error (.unknownCommand word)

/-- The big-map command that arguments spell. -/
def ofBigMapArguments : List String → Except Interruption Command
  | "decode" :: rest => do return decodeEvents (← input (← arguments ["bigmap", "decode"] [] rest))
  | "encode" :: rest => do return encodeEvents (← input (← arguments ["bigmap", "encode"] [] rest))
  | "detect" :: rest => do
    let args ← arguments ["bigmap", "detect"] [typeSetting] rest
    return detect (← typeInput args) (← input args)
  | rest => unnamed ["bigmap"] rest

/-- The view that the arguments of an inference ask for. -/
def inferenceView (args : Arguments) : Except Interruption InferenceView :=
  match args.has "typedef", args.has "json" with
  | true, true => .error (.conflict "json" "typedef")
  | true, false => .ok .typedef
  | false, true => .ok .json
  | false, false => .ok .text

/-- **The command that arguments spell.** -/
def ofArguments : List String → Except Interruption Command
  | "typedef" :: rest => do
    let args ← arguments ["typedef"]
      [⟨"name", none, .single⟩, ⟨"unfold", some 'u', .flag⟩, ⟨"text", some 't', .flag⟩] rest
    return typedef (← input args) ((args.value? "name").getD "root") (args.has "unfold")
      (args.has "text")
  | "entrypoints" :: rest => do
    let args ← arguments ["entrypoints"]
      [⟨"keep-or", none, .many⟩, ⟨"json", none, .flag⟩] rest
    return entrypoints (← input args) (args.values "keep-or") (args.has "json")
  | "infer" :: rest => do
    let args ← arguments ["infer"] [⟨"typedef", none, .flag⟩, ⟨"json", none, .flag⟩] rest
    return infer (← input args) (← inferenceView args)
  | "check" :: rest => do
    let args ← arguments ["check"] [typeSetting] rest
    return check (← typeInput args) (← input args)
  | "marshal" :: rest => do
    let args ← arguments ["marshal"]
      [typeSetting, ⟨"entrypoint", some 'e', .single⟩, ⟨"optimized", some 'o', .flag⟩,
        ⟨"text", some 't', .flag⟩] rest
    let form : ScalarForm := if args.has "optimized" then .optimized else .readable
    return marshal (← typeInput args) (← input args) (args.value? "entrypoint") form
      (args.has "text")
  | "bigmap" :: rest => ofBigMapArguments rest
  | rest => unnamed [] rest

/-- The sources that a command reads, in order. -/
def sources : Command → List Source
  | typedef input _ _ _ | entrypoints input _ _ | infer input _
  | decodeEvents input | encodeEvents input => [input]
  | check type value | marshal type value _ _ _ => [type, value]
  | detect type storage => [type, storage]

end Command

end Michelson
