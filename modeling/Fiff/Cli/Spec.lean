/-!
# The command line of the matrix tool

The tool has two commands, `write` and `show`, and a `help` command that prints the help of the
others. This module states the command line as data: every command with its named arguments
(flags, counting flags and options with a value), its positional arguments and the texts that
help prints for them. Parsing, usage lines and help texts are all read off this data.
-/

set_option autoImplicit false

namespace Fiff.Cli

/-- How the value of an option or argument is checked. -/
inductive ValueKind where
  | path
  | int32
  deriving DecidableEq, Inhabited

/-- What a named argument does when it is given. -/
inductive Action where
  | flag
  | count
  | value (name : String) (kind : ValueKind)
  | help
  | version
  deriving DecidableEq, Inhabited

/-- A named argument: its identity, its short and long spellings, what it does, whether it must
be given, its help line, and its place among the options in help. -/
structure Named where
  id : String
  short : Option Char
  long : String
  action : Action
  required : Bool
  help : String
  order : Nat
  deriving DecidableEq, Inhabited

/-- A positional argument: its identity, the name of its value, whether it must be given,
whether it takes several values, how it is checked and its help line. -/
structure Positional where
  id : String
  name : String
  required : Bool
  many : Bool
  kind : ValueKind
  help : String
  deriving DecidableEq, Inhabited

/-- A command: its name, its full name in usage lines, its description, its named arguments in
the order they are looked up, its positional arguments and the commands it leads to. -/
structure Command where
  name : String
  path : String
  about : String
  named : List Named
  positionals : List Positional
  commands : List (String × String)
  deriving Inhabited

def program : String := "fiffmat"

def version : String := "0.1.0"

def verboseArg : Named :=
  ⟨"verbose", some 'v', "verbose", .count, false,
    "Increase log verbosity (-v debug, -vv trace); RUST_LOG overrides", 0⟩

def helpArg : Named := ⟨"help", some 'h', "help", .help, false, "Print help", 999⟩

def versionArg : Named := ⟨"version", some 'V', "version", .version, false, "Print version", 999⟩

def inputArg : Positional := ⟨"input", "INPUT", true, false, .path, "Matrix description file"⟩

def writeAbout : String := "Encode a matrix description (.toml or .json) as a named-matrix block"

def showAbout : String := "Encode a description, read it back, and print a summary"

def helpAbout : String := "Print this message or the help of the given subcommand(s)"

def top : Command :=
  ⟨program, program, "FIFF named-matrix tool", [verboseArg, helpArg, versionArg], [],
    [("write", writeAbout), ("show", showAbout), ("help", helpAbout)]⟩

def writeCommand : Command :=
  ⟨"write", program ++ " write", writeAbout,
    [⟨"output", some 'o', "output", .value "OUTPUT" .path, true, "Output .fif file", 0⟩,
      ⟨"kind", none, "kind", .value "KIND" .int32, false,
        "Tag kind for the matrix payload (default: from the description)", 1⟩,
      verboseArg, helpArg],
    [inputArg], []⟩

def showCommand : Command :=
  ⟨"show", program ++ " show", showAbout,
    [⟨"transpose", none, "transpose", .flag, false, "Transpose the matrix after reading", 0⟩,
      ⟨"json", none, "json", .flag, false, "Print the summary as JSON", 1⟩,
      verboseArg, helpArg],
    [inputArg], []⟩

def helpCommand : Command :=
  ⟨"help", program ++ " help", helpAbout, [],
    [⟨"subcommand", "COMMAND", false, true, .path, "Print help for the subcommand(s)"⟩], []⟩

def commands : List Command := [writeCommand, showCommand, helpCommand]

def lookupCommand (name : String) : Option Command := commands.find? (·.name == name)

end Fiff.Cli
