/-!
# Command-line arguments

An argument that starts with a hyphen names settings: `--name` one, `-ab` two of one letter each.
A setting may ask for a value, which is the rest of its argument or the next one. Every other
argument is an operand, and so is every argument after `--`; a single hyphen is an operand, too.

## Main definitions

* `Setting`: a setting that a command knows
* `Interruption`: why arguments make no command
* `Arguments`: arguments sorted out
* `Arguments.read`: sorts arguments out
-/

namespace Michelson

/-- What a setting takes. -/
inductive Setting.Kind where
  /-- No value. -/
  | flag
  /-- A value. -/
  | single
  /-- A value, each time that it is given. -/
  | many
  /-- No value: it is answered with a text at once. -/
  | notice (text : String)
  deriving DecidableEq, Repr

/-- **A setting of a command**: its name, the letter that stands for it, and what it takes. -/
structure Setting where
  name : String
  letter : Option Char
  kind : Setting.Kind

/-- Why arguments make no command: they ask for a text, or they are misused. -/
inductive Interruption where
  | notice (text : String)
  | missingCommand
  | unknownCommand (name : String)
  | unknownSetting (argument : String)
  | missingValue (setting : String)
  | unexpectedValue (setting : String)
  | repeatedSetting (setting : String)
  | conflict (setting other : String)
  | missingSetting (setting : String)
  | missingOperand
  | unexpectedOperand (operand : String)
  deriving DecidableEq, Repr

/-- The wording of an interruption. -/
def Interruption.message : Interruption → String
  | notice text => text
  | missingCommand => "a command is missing"
  | unknownCommand name => s!"unknown command `{name}`"
  | unknownSetting argument => s!"unexpected argument `{argument}`"
  | missingValue setting => s!"`--{setting}` needs a value"
  | unexpectedValue setting => s!"`--{setting}` takes no value"
  | repeatedSetting setting => s!"`--{setting}` is given more than once"
  | conflict setting other => s!"`--{setting}` cannot be used with `--{other}`"
  | missingSetting setting => s!"`--{setting}` is missing"
  | missingOperand => "an argument is missing"
  | unexpectedOperand operand => s!"unexpected argument `{operand}`"

/-- **Arguments sorted out**: the settings that are given, with their values, and the operands,
both in order. The value of a flag is empty. -/
structure Arguments where
  settings : List (String × String)
  operands : List String

namespace Arguments

/-- Whether a setting is given. -/
def has (args : Arguments) (name : String) : Bool := args.settings.any (·.1 == name)

/-- The value of a setting, if it is given. -/
def value? (args : Arguments) (name : String) : Option String := args.settings.lookup name

/-- The values of a setting that may be given many times. -/
def values (args : Arguments) (name : String) : List String :=
  args.settings.filterMap fun (given, value) => if given == name then some value else none

/-- The value of a setting that has to be given. -/
def value (args : Arguments) (name : String) : Except Interruption String :=
  match args.value? name with
  | some value => .ok value
  | none => .error (.missingSetting name)

/-- The operand of a command that has one. -/
def operand (args : Arguments) : Except Interruption String :=
  match args.operands with
  | [] => .error .missingOperand
  | [operand] => .ok operand
  | _ :: second :: _ => .error (.unexpectedOperand second)

/-- Adds a setting. Only one that is made for it can be given more than once. -/
def add (args : Arguments) (setting : Setting) (value : String) : Except Interruption Arguments :=
  if setting.kind ≠ .many && args.has setting.name then .error (.repeatedSetting setting.name)
  else .ok { args with settings := args.settings ++ [(setting.name, value)] }

/-- Adds operands. -/
def addOperands (args : Arguments) (operands : List String) : Arguments :=
  { args with operands := args.operands ++ operands }

/-- Adds a setting that an argument names, with the value that stands in the same argument, if
one does. A setting that still needs a value is handed back. -/
def addNamed (args : Arguments) (setting : Setting) (attached : Option String) :
    Except Interruption (Arguments × Option Setting) :=
  match setting.kind, attached with
  | .flag, none => do return (← args.add setting "", none)
  | .notice text, none => .error (.notice text)
  | .flag, some _ | .notice _, some _ => .error (.unexpectedValue setting.name)
  | _, some value => do return (← args.add setting value, none)
  | _, none => .ok (args, some setting)

/-- Adds the setting of an argument, given without its two hyphens. An equals sign stands before
a value. -/
def addLong (known : List Setting) (args : Arguments) (text : List Char) :
    Except Interruption (Arguments × Option Setting) :=
  let name := String.ofList (text.takeWhile (· ≠ '='))
  match known.find? (·.name == name), text.dropWhile (· ≠ '=') with
  | none, _ => .error (.unknownSetting s!"--{name}")
  | some setting, [] => args.addNamed setting none
  | some setting, _ :: value => args.addNamed setting (some (String.ofList value))

/-- Adds the settings of an argument, given without its hyphen. What follows the letter of a
setting that needs a value is the value, at once or after an equals sign. -/
def addLetters (known : List Setting) (args : Arguments) :
    List Char → Except Interruption (Arguments × Option Setting)
  | [] => .ok (args, none)
  | letter :: rest =>
    match known.find? (·.letter == some letter) with
    | none => .error (.unknownSetting s!"-{letter}")
    | some setting => match setting.kind, rest with
      | .flag, rest => do addLetters known (← args.add setting "") rest
      | .notice text, _ => .error (.notice text)
      | _, [] => args.addNamed setting none
      | _, '=' :: value | _, value => args.addNamed setting (some (String.ofList value))

/-- Sorts arguments out after those sorted out before, of which the last may be a setting that
waits for its value. -/
def readFrom (known : List Setting) (args : Arguments) (waiting : Option Setting) :
    List String → Except Interruption Arguments
  | [] => match waiting with
    | some setting => .error (.missingValue setting.name)
    | none => .ok args
  | argument :: rest =>
    match argument.toList, waiting with
    | '-' :: _ :: _, some setting => .error (.missingValue setting.name)
    | _, some setting => do readFrom known (← args.add setting argument) none rest
    | ['-', '-'], none => .ok (args.addOperands rest)
    | '-' :: '-' :: text, none => do
      let (args, waiting) ← args.addLong known text
      readFrom known args waiting rest
    | '-' :: letter :: letters, none => do
      let (args, waiting) ← args.addLetters known (letter :: letters)
      readFrom known args waiting rest
    | _, none => readFrom known (args.addOperands [argument]) none rest

/-- **Sorts arguments out** by the settings that are known. -/
def read (known : List Setting) (arguments : List String) : Except Interruption Arguments :=
  readFrom known ⟨[], []⟩ none arguments

end Arguments

end Michelson
