import Fiff.Cli.Help
import Fiff.Cli.Similar
import Fiff.Cli.Error

/-!
# Reading the command line

The words of the command line are read from the left. Before a command name, only the
program's own flags may stand; the command name hands the rest of the words to the command.
Within a command, `--name` and `--name=value` are long options, `-abc` is a cluster of short
flags in which an option takes the rest of the cluster (after an optional `=`) or else the next
word as its value, `--` makes every later word positional, and any other word fills the next
positional argument. An option's value is checked when the next option or positional argument
starts, or at the end; a word that no argument takes stops the reading at once. At the end,
required arguments that were not given are an error.
-/

set_option autoImplicit false

namespace Fiff.Cli

/-- A value given to an argument. -/
inductive Given where
  | count (n : Nat)
  | switch
  | text (s : String)
  | int32 (i : Int32)
  deriving Inhabited

/-- What the command line asks the tool to do. -/
inductive Request where
  | write (input output : String) (kind : Option Int32)
  | show (input : String) (transpose json : Bool)
  deriving Inhabited

/-- A request with the log level: `0` reports information, more reports debugging lines. -/
structure Invocation where
  request : Request
  verbosity : Nat
  deriving Inhabited

/-- What reading a command line ends in. -/
inductive Parsed where
  | run (i : Invocation)
  | print (text : String)
  | refuse (text : String)
  deriving Inhabited

/-- Where reading a command stops early: an error, or a help text to print. -/
inductive Stop where
  | error (e : UsageError)
  | help (text : String)

def parseInt64 (s : String) : Except String Int :=
  let cs := s.toList
  let (neg, ds) := match cs with
    | '+' :: rest => (false, rest)
    | '-' :: rest => (true, rest)
    | _ => (false, cs)
  if cs.isEmpty then .error "cannot parse integer from empty string"
  else if ds.isEmpty then .error "invalid digit found in string"
  else
    let bound : Nat := if neg then Nat.pow 2 63 else Nat.pow 2 63 - 1
    let overflow := if neg then "number too small to fit in target type"
      else "number too large to fit in target type"
    let step (acc : Except String Nat) (c : Char) : Except String Nat := do
      let v ← acc
      if !c.isDigit then throw "invalid digit found in string"
      let v := v * 10 + (c.toNat - 48)
      if v > bound then throw overflow
      pure v
    (ds.foldl step (.ok 0)).map fun v => if neg then -(v : Int) else v

def checkValue (display : String) (kind : ValueKind) (v : String) : Except UsageError Given :=
  match kind with
  | .path => if v.isEmpty then .error (.missingValue display) else .ok (.text v)
  | .int32 =>
    match parseInt64 v with
    | .error reason => .error (.invalidValue display v reason)
    | .ok i =>
      if -2147483648 ≤ i ∧ i ≤ 2147483647 then .ok (.int32 (Int32.ofInt i))
      else .error (.invalidValue display (toString i) s!"{i} is not in -2147483648..=2147483647")

/-- An argument waiting for its value. -/
inductive Pending where
  | option (a : Named) (values : List String)
  | positional (p : Positional) (value : String)

/-- The state of reading a command's words. -/
structure Scan where
  matched : List (String × Given)
  pending : Option Pending
  awaiting : Bool
  position : Nat
  trailing : Bool

namespace Scan

def start : Scan := ⟨[], none, false, 0, false⟩

def has (s : Scan) (id : String) : Bool := s.matched.any (·.1 == id)

def add (s : Scan) (id : String) (g : Given) : Scan := { s with matched := s.matched ++ [(id, g)] }

def used (s : Scan) : List String := s.matched.map (·.1)

def resolve (c : Command) (s : Scan) : Except UsageError Scan :=
  let t := { s with pending := none, awaiting := false }
  match s.pending with
  | none => .ok s
  | some (.option a values) =>
    match values with
    | [] => .error (.missingValue a.display)
    | v :: _ =>
      if t.has a.id then .error (.repeated a.display c.usage)
      else
        let kind := match a.action with
          | .value _ k => k
          | _ => .path
        (checkValue a.display kind v).map (t.add a.id)
  | some (.positional p v) => (checkValue p.display p.kind v).map (t.add p.id)

def settle (c : Command) (s : Scan) : Scan :=
  match s.resolve c with
  | .ok t => t
  | .error _ => { s with pending := none, awaiting := false }

def react (c : Command) (s : Scan) (a : Named) : Except Stop Scan := do
  let s ← (s.resolve c).mapError Stop.error
  match a.action with
  | .count =>
    let n := match s.matched.find? (·.1 == a.id) with
      | some (_, .count n) => n
      | _ => 0
    if s.has a.id then
      pure { s with matched := s.matched.map fun (i, g) => if i == a.id then (i, .count (n + 1)) else (i, g) }
    else pure (s.add a.id (.count 1))
  | .flag =>
    if s.has a.id then throw (.error (.repeated a.display c.usage)) else pure (s.add a.id .switch)
  | .help => throw (.help c.helpText)
  | .version => throw (.help versionText)
  | .value .. => pure s

def startOption (c : Command) (s : Scan) (a : Named) (attached : Option String) :
    Except Stop Scan := do
  let s ← (s.resolve c).mapError Stop.error
  match attached with
  | some v => ({ s with pending := some (.option a [v]) }.resolve c).mapError Stop.error
  | none => pure { s with pending := some (.option a []), awaiting := true }

end Scan

def Command.requiredIds (c : Command) : List String :=
  (c.named.filter (·.required)).map (·.id) ++ (c.positionals.filter (·.required)).map (·.id)

def unexpected (c : Command) (s : Scan) (word : String) (flagLike : Bool) : Stop :=
  .error (.unexpectedArgument word none none (flagLike && !s.trailing && !c.positionals.isEmpty)
    c.usage)

def optionElsewhere (name : String) (rest : List String) : Option String :=
  let found := commands.filterMap fun sub => do
    let similar ← mostSimilar name (sub.named.map (·.long))
    let place ← rest.idxOf? sub.name
    pure (place, sub.name ++ " --" ++ similar)
  (found.foldl (fun (best : Option (Nat × String)) x => match best with
    | some b => if x.1 < b.1 then some x else some b
    | none => some x) none).map (·.2)

def splitAttached (body : List Char) : String × Option String :=
  match body.idxOf? '=' with
  | some i => (String.ofList (body.take i), some (String.ofList (body.drop (i + 1))))
  | none => (String.ofList body, none)

def longOption (c : Command) (s : Scan) (name : String) (attached : Option String)
    (rest : List String) : Except Stop Scan :=
  match c.named.find? (·.long == name) with
  | some a =>
    match a.action, attached with
    | .value .., _ => s.startOption c a attached
    | _, some v =>
      let s := s.settle c
      let used := (s.used.filter fun i => !c.requiredIds.contains i) ++ [a.id]
      throw (.error (.unexpectedValue v a.display (c.usageAfter used)))
    | _, none => s.react c a
  | none =>
    let s := s.settle c
    match mostSimilar name (c.named.map (·.long)) with
    | some found =>
      let ids := (c.named.filter (·.long == found)).map (·.id)
      throw (.error (.unexpectedArgument ("--" ++ name) (some ("--" ++ found)) none false
        (c.usageAfter (s.used ++ ids))))
    | none =>
      let trailingTip := !s.trailing && !c.positionals.isEmpty
      throw (.error (.unexpectedArgument ("--" ++ name) none (optionElsewhere name rest) trailingTip
        (c.usageAfter s.used)))

def shortCluster (c : Command) : Scan → List Char → Except Stop Scan
  | s, [] => pure s
  | s, ch :: rest =>
    match c.named.find? (·.short == some ch) with
    | some a =>
      match a.action with
      | .value .. =>
        let attached := match rest with
          | [] => none
          | '=' :: v => some (String.ofList v)
          | v => some (String.ofList v)
        s.startOption c a attached
      | _ => do
        let s ← s.react c a
        shortCluster c s rest
    | none => throw (unexpected c (s.settle c) ("-" ++ ch.toString) true)

def positionalWord (c : Command) (s : Scan) (word : String) : Except Stop Scan :=
  match s.pending, s.awaiting with
  | some (.option a vs), true => pure { s with pending := some (.option a (vs ++ [word])), awaiting := false }
  | _, _ =>
    match c.positionals[s.position]? with
    | some p => do
      let s ← (s.resolve c).mapError Stop.error
      pure { s with pending := some (.positional p word), position := s.position + 1 }
    | none => throw (unexpected c (s.settle c) word false)

def commandWord (c : Command) (s : Scan) (word : String) (rest : List String) : Except Stop Scan :=
  if s.trailing then positionalWord c s word
  else if word == "--" then pure { s with trailing := true }
  else if word.startsWith "--" then
    let (name, attached) := splitAttached (word.toList.drop 2)
    longOption c s name attached rest
  else if word.startsWith "-" ∧ word.length > 1 then shortCluster c s (word.toList.drop 1)
  else positionalWord c s word

def commandWords (c : Command) : Scan → List String → Except Stop Scan
  | s, [] => pure s
  | s, w :: rest => do
    let s ← commandWord c s w rest
    commandWords c s rest

def readCommand (c : Command) (words : List String) : Except Stop Scan := do
  let s ← commandWords c Scan.start words
  let s ← (s.resolve c).mapError Stop.error
  let missingNamed := c.named.filter fun a => a.required && !s.has a.id
  let missingPositional := c.positionals.filter fun p => p.required && !s.has p.id
  if missingNamed.isEmpty && missingPositional.isEmpty then pure s
  else
    let ids := missingNamed.map (·.id) ++ missingPositional.map (·.id)
    throw (.error (.missingArguments
      (missingNamed.map Named.display ++ missingPositional.map Positional.display)
      (c.usageAfter (s.used ++ ids))))

def Scan.text (s : Scan) (id : String) : String :=
  match s.matched.find? (·.1 == id) with
  | some (_, .text t) => t
  | _ => ""

def requestOf (c : Command) (s : Scan) (verbosity : Nat) : Invocation :=
  let level := match s.matched.find? (·.1 == "verbose") with
    | some (_, .count n) => n
    | _ => verbosity
  let kind := match s.matched.find? (·.1 == "kind") with
    | some (_, .int32 k) => some k
    | _ => none
  if c.name == "write" then ⟨.write (s.text "input") (s.text "output") kind, level⟩
  else ⟨.show (s.text "input") (s.has "transpose") (s.has "json"), level⟩

def helpFor : Command → List String → Parsed
  | c, [] => .print c.helpText
  | c, name :: rest =>
    if c.commands.any (·.1 == name) then
      match lookupCommand name with
      | some sub => helpFor sub rest
      | none => .print c.helpText
    else .refuse (UsageError.unrecognizedCommand name [] c.usage).render

def Parsed.ofCommand (c : Command) (words : List String) (verbosity : Nat) : Parsed :=
  match readCommand c words with
  | .ok s => .run (requestOf c s verbosity)
  | .error (.help text) => .print text
  | .error (.error e) => .refuse e.render

def topUsage (count : Nat) (more : List String) : String :=
  top.usageAfter ((if count > 0 then ["verbose"] else []) ++ more)

def shortTop (count : Nat) : List Char → Except Parsed Nat
  | [] => .ok count
  | ch :: more =>
    if ch = 'v' then shortTop (count + 1) more
    else if ch = 'h' then .error (.print top.helpText)
    else if ch = 'V' then .error (.print versionText)
    else .error (.refuse (UsageError.unexpectedArgument ("-" ++ ch.toString) none none false
      top.usage).render)

def readTop (count : Nat) (trailing : Bool) : List String → Parsed
  | [] =>
    if count = 0 then .refuse top.helpText
    else .refuse (UsageError.missingCommand program (top.commands.map (·.1)) top.usage).render
  | word :: rest =>
    if trailing then
      if (lookupCommand word).isSome then .refuse (UsageError.needlessSeparator word top.usage).render
      else .refuse (UsageError.unrecognizedCommand word [] top.usage).render
    else match lookupCommand word with
    | some c =>
      if c.name == "help" then helpFor top rest else Parsed.ofCommand c rest count
    | none =>
      if word == "--" then readTop count true rest
      else if word.startsWith "--" then
        let (name, attached) := splitAttached (word.toList.drop 2)
        match top.named.find? (·.long == name), attached with
        | some a, some v =>
          .refuse (UsageError.unexpectedValue v a.display (topUsage 0 [a.id])).render
        | some a, none =>
          match a.action with
          | .help => .print top.helpText
          | .version => .print versionText
          | _ => readTop (count + 1) false rest
        | none, _ =>
          match mostSimilar name (top.named.map (·.long)) with
          | some found =>
            .refuse (UsageError.unexpectedArgument ("--" ++ name) (some ("--" ++ found)) none false
              (topUsage count [found])).render
          | none =>
            .refuse (UsageError.unexpectedArgument ("--" ++ name) none (optionElsewhere name rest)
              false (topUsage count [])).render
      else if word.startsWith "-" ∧ word.length > 1 then
        match shortTop count (word.toList.drop 1) with
        | .ok n => readTop n false rest
        | .error p => p
      else
        .refuse (UsageError.unrecognizedCommand word
          (similarNames word (top.commands.map (·.1))) top.usage).render

def parse (words : List String) : Parsed := readTop 0 false words

end Fiff.Cli
