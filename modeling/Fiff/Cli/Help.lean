import Fiff.Cli.Spec

/-!
# Usage lines and help texts

An argument is named in messages by its long spelling with its value (`--output <OUTPUT>`), a
counting flag with an ellipsis (`--verbose...`), a positional argument by its value in angle
brackets, or in square brackets when it may be left out. The usage line of a command lists
`[OPTIONS]` when it has options that may be left out, then its required options and its
positional arguments; the usage line that follows an error lists only what is required and what
was given. Help has the description, the usage line, then the sections of commands, positional
arguments and options, each a column of names and a column of help lines; options are sorted by
their place, then by their short spelling, then by their long one.
-/

set_option autoImplicit false

namespace Fiff.Cli

def Named.display (a : Named) : String :=
  "--" ++ a.long ++
    match a.action with
    | .value name _ => " <" ++ name ++ ">"
    | .count => "..."
    | _ => ""

def Named.column (a : Named) : String :=
  (match a.short with
    | some c => "-" ++ c.toString ++ ", "
    | none => "    ") ++ a.display

/-- The key that sorts options in help: short spellings by their lower case, the lower case
first, then long spellings. -/
def Named.sortKey (a : Named) : Nat × String :=
  (a.order, match a.short with
    | some c => c.toLower.toString ++ (if c.isLower then "0" else "1")
    | none => a.long)

def keyLe (a b : Nat × String) : Bool := a.1 < b.1 || (a.1 == b.1 && decide (a.2 ≤ b.2))

def Positional.display (p : Positional) : String :=
  (if p.required then "<" ++ p.name ++ ">" else "[" ++ p.name ++ "]") ++
    (if p.many then "..." else "")

def Named.prints (a : Named) : Bool :=
  match a.action with
  | .help | .version => true
  | _ => false

def Command.hasOptions (c : Command) : Bool :=
  c.named.any fun a => !a.required && !a.prints

def Command.usage (c : Command) : String :=
  " ".intercalate ([c.path] ++ (if c.hasOptions then ["[OPTIONS]"] else []) ++
    (c.named.filter (·.required)).map Named.display ++ c.positionals.map Positional.display ++
    (if c.commands.isEmpty then [] else ["<COMMAND>"]))

def dedup (xs : List String) : List String :=
  xs.foldl (fun acc x => if acc.contains x then acc else acc ++ [x]) []

/-- The usage line after an error: what is required, then what was given (by identity), options
before positional arguments. No argument given means the full usage line. -/
def Command.usageAfter (c : Command) (used : List String) : String :=
  if used.isEmpty then c.usage else
  let ids := dedup (((c.named.filter (·.required)).map (·.id)) ++
    ((c.positionals.filter (·.required)).map (·.id)) ++ used)
  let options := ids.filterMap fun i => (c.named.find? (·.id == i)).map Named.display
  let positionals := (c.positionals.filter fun p => ids.contains p.id).map Positional.display
  " ".intercalate ([c.path] ++ options ++ positionals ++
    (if c.commands.isEmpty then [] else ["<COMMAND>"]))

def padRight (s : String) (width : Nat) : String :=
  s ++ String.ofList (List.replicate (width - s.length) ' ')

/-- A help section: a heading and rows of a name and a help line, the help lines in one
column. -/
def helpSection (heading : String) (rows : List (String × String)) : String :=
  let width := rows.foldl (fun w r => max w r.1.length) 2
  heading ++ ":\n" ++ "\n".intercalate (rows.map fun r => "  " ++ padRight r.1 width ++ "  " ++ r.2)

def Command.helpText (c : Command) : String :=
  let commandRows := c.commands
  let argumentRows := c.positionals.map fun p => (p.display, p.help)
  let sorted := c.named.mergeSort fun a b => keyLe a.sortKey b.sortKey
  let optionRows := sorted.map fun a => (a.column, a.help)
  let sections :=
    (if commandRows.isEmpty then [] else [helpSection "Commands" commandRows]) ++
    (if argumentRows.isEmpty then [] else [helpSection "Arguments" argumentRows]) ++
    (if optionRows.isEmpty then [] else [helpSection "Options" optionRows])
  c.about ++ "\n\nUsage: " ++ c.usage ++ "\n\n" ++ "\n\n".intercalate sections ++ "\n"

def versionText : String := program ++ " " ++ version ++ "\n"

end Fiff.Cli
