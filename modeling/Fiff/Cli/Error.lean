/-!
# Usage errors

A command line that cannot be run is answered with an error: a sentence on what is wrong, tips
(a similar name, how to pass a text that looks like an option as a value), the usage line when
the error has one, and a pointer to the help. The program then ends with status 2.
-/

set_option autoImplicit false

namespace Fiff.Cli

/-- Why a command line cannot be run. -/
inductive UsageError where
  | unexpectedArgument (arg : String) (similar : Option String) (elsewhere : Option String)
      (asValue : Bool) (usage : String)
  | unrecognizedCommand (name : String) (similar : List String) (usage : String)
  | needlessSeparator (name : String) (usage : String)
  | missingArguments (args : List String) (usage : String)
  | missingCommand (program : String) (names : List String) (usage : String)
  | missingValue (arg : String)
  | invalidValue (arg value reason : String)
  | unexpectedValue (value arg : String) (usage : String)
  | repeated (arg : String) (usage : String)
  deriving Inhabited

namespace UsageError

def message : UsageError → String
  | unexpectedArgument arg .. => s!"unexpected argument '{arg}' found"
  | unrecognizedCommand name .. => s!"unrecognized subcommand '{name}'"
  | needlessSeparator .. => "unexpected argument '--' found"
  | missingArguments args _ =>
    "the following required arguments were not provided:" ++
      String.join (args.map ("\n  " ++ ·))
  | missingCommand program names _ =>
    s!"'{program}' requires a subcommand but one was not provided\n  [subcommands: " ++
      ", ".intercalate names ++ "]"
  | missingValue arg => s!"a value is required for '{arg}' but none was supplied"
  | invalidValue arg value reason => s!"invalid value '{value}' for '{arg}': {reason}"
  | unexpectedValue value arg _ =>
    s!"unexpected value '{value}' for '{arg}' found; no more were expected"
  | repeated arg _ => s!"the argument '{arg}' cannot be used multiple times"

def quoted (names : List String) : String := ", ".intercalate (names.map fun n => "'" ++ n ++ "'")

def tips : UsageError → List String
  | unexpectedArgument arg similar elsewhere asValue _ =>
    (similar.map fun s => s!"a similar argument exists: '{s}'").toList ++
      (if asValue then [s!"to pass '{arg}' as a value, use '-- {arg}'"] else []) ++
      (elsewhere.map fun e => s!"'{e}' exists").toList
  | unrecognizedCommand _ similar _ =>
    match similar with
    | [] => []
    | [s] => [s!"a similar subcommand exists: '{s}'"]
    | _ => ["some similar subcommands exist: " ++ quoted similar]
  | needlessSeparator name _ => [s!"subcommand '{name}' exists; to use it, remove the '--' before it"]
  | _ => []

def usage : UsageError → Option String
  | unexpectedArgument _ _ _ _ u | unrecognizedCommand _ _ u | needlessSeparator _ u
  | missingArguments _ u | missingCommand _ _ u | unexpectedValue _ _ u | repeated _ u => some u
  | missingValue _ | invalidValue .. => none

def render (e : UsageError) : String :=
  let t := e.tips
  "error: " ++ e.message ++
    (if t.isEmpty then "" else "\n" ++ String.join (t.map ("\n  tip: " ++ ·))) ++
    (match e.usage with
      | some u => "\n\nUsage: " ++ u
      | none => "") ++
    "\n\nFor more information, try '--help'.\n"

end UsageError

end Fiff.Cli
