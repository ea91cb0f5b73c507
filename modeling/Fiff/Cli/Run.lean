import Fiff.Cli.Args
import Fiff.Cli.Files
import Fiff.Summary

/-!
# Running the tool

A run reads the command line, then runs the command on the files. `write` reads a description,
encodes its labelled matrix as a block and stores the stream in the output file, which is only
created once the stream is complete. `show` reads a description, checks it by the round trip of
`summarize` and prints the summary as text or JSON. A description is JSON when its path ends in
the extension `json`, and TOML otherwise. A failure prints `error: ` and its causes, outermost
first, each giving the file it concerns; the program then ends with status 1. Notes of writing
and reading are printed on standard error as log lines when the log level admits them.
-/

set_option autoImplicit false

namespace Fiff

def Source.module : Source → String
  | .tagWrite => "fiff_tag::write"
  | .tagRead => "fiff_tag::read"
  | .matrixWrite => "fiff_matrix::write"
  | .matrixRead => "fiff_matrix::read"
  | .command => "fiffmat::commands::write"

def labelLine (title : String) (names : List String) : String :=
  "  " ++ title ++ ": " ++ (if names.isEmpty then "(unlabelled)" else ", ".intercalate names) ++ "\n"

def Summary.text (path : String) (s : Summary) : String :=
  s!"--- Named Matrix ({path}) ---\n" ++
    s!"  Kind:    {s.kind.toInt}\n" ++
    s!"  Shape:   {s.nrow} x {s.ncol}\n" ++
    labelLine "Rows" s.rowNames ++ labelLine "Columns" s.colNames ++
    (match s.min, s.max with
      | some lo, some hi => "  Range:   [" ++ lo.display ++ ", " ++ hi.display ++ "]\n"
      | _, _ => "") ++
    s!"  Encoded: {s.encodedBytes} bytes\n"

def Summary.toJson (s : Summary) : Json.Value :=
  let value : Option Binary32 → Json.Value := fun x => (x.map Binary32.toJson).getD .null
  .object [("kind", .number (toString s.kind.toInt)), ("nrow", .number (toString s.nrow)),
    ("ncol", .number (toString s.ncol)), ("row_names", Labels.toJson s.rowNames),
    ("col_names", Labels.toJson s.colNames), ("min", value s.min), ("max", value s.max),
    ("encoded_bytes", .number (toString s.encodedBytes))]

end Fiff

namespace Fiff.Cli

/-- What a run of the tool leaves: its status and the texts of its two output streams. -/
structure Outcome where
  status : Nat
  stdout : String
  stderr : String
  deriving Inhabited

/-- The extension of the last component of a path: after its last dot, when something comes
before that dot. -/
def extension (path : String) : Option String :=
  match (components path).getLast? with
  | none => none
  | some name =>
    if name = ".." then none
    else
      let cs := name.toList
      match cs.reverse.idxOf? '.' with
      | none => none
      | some back =>
        let cut := cs.length - 1 - back
        if cut = 0 then none else some (String.ofList (cs.drop (cut + 1)))

def formatOf (path : String) : TextFormat :=
  if extension path = some "json" then .json else .toml

/-- The log lines of the notes that a log level admits: information always, debugging lines
from level 1. -/
def logLines (verbosity : Nat) (notes : List Note) : String :=
  String.join (notes.filterMap fun n =>
    match n.level with
    | .info => some ("[INFO  " ++ n.source.module ++ "] " ++ n.text ++ "\n")
    | .debug =>
      if verbosity ≥ 1 then some ("[DEBUG " ++ n.source.module ++ "] " ++ n.text ++ "\n")
      else none)

def failure (log : String) (causes : List String) : Outcome :=
  ⟨1, "", log ++ "error: " ++ ": ".intercalate causes ++ "\n"⟩

def load {m : Type → Type} [Monad m] (files : Files m) (path : String) :
    m (Except (List String) Description) := do
  match ← files.read path with
  | .error e => pure (.error ["reading " ++ path, e.message])
  | .ok bytes =>
    match String.fromUTF8? ⟨bytes.toArray⟩ with
    | none => pure (.error ["reading " ++ path, IoError.notText.message])
    | some text =>
      match Description.parse (formatOf path) text with
      | .ok d => pure (.ok d)
      | .error e => pure (.error ["parsing " ++ path, e])

def runShow {m : Type → Type} [Monad m] (files : Files m) (verbosity : Nat) (input : String)
    (transpose json : Bool) : m Outcome := do
  match ← load files input with
  | .error causes => pure (failure "" causes)
  | .ok d =>
    let (notes, result) := summarize d ⟨transpose, "    "⟩
    let log := logLines verbosity notes
    match result with
    | .error e => pure (failure log (("checking " ++ input) :: e.causes))
    | .ok s =>
      let out := if json then s.toJson.pretty ++ "\n" else s.text input
      pure ⟨0, out, log⟩

def tagCount (root : Node) : Nat := root.children.foldl (fun n b => n + b.directory.length) 0

def runWrite {m : Type → Type} [Monad m] (files : Files m) (verbosity : Nat)
    (input output : String) (kind : Option Int32) : m Outcome := do
  match ← load files input with
  | .error causes => pure (failure "" causes)
  | .ok d =>
    match d.toNamed with
    | .error r => pure (failure "" [r.message])
    | .ok named =>
      let k := kind.getD d.kind
      match (writeNamedMatrix k named).run Writer.new with
      | .error e w =>
        pure (failure (logLines verbosity w.notes) (("encoding " ++ input) :: e.causes))
      | .ok () w =>
        match w.finish with
        | .error e => pure (failure (logLines verbosity w.notes) e.causes)
        | .ok (bytes, root) =>
          let notes := w.notes ++
            [⟨.debug, .command, s!"encoded {root.nchild} blocks, {bytes.length} bytes"⟩]
          let log := logLines verbosity notes
          match ← files.write output bytes with
          | .error e => pure (failure log ["writing " ++ output, e.message])
          | .ok () =>
            pure ⟨0, s!"Wrote {named.nrow}x{named.ncol} named matrix (kind = {k.toInt}) to " ++
              s!"{output} ({bytes.length} bytes, {tagCount root} tags)\n", log⟩

def run {m : Type → Type} [Monad m] (files : Files m) (args : List String) : m Outcome :=
  match parse args with
  | .print text => pure ⟨0, text, ""⟩
  | .refuse text => pure ⟨2, "", text⟩
  | .run ⟨.write input output kind, v⟩ => runWrite files v input output kind
  | .run ⟨.show input transpose json, v⟩ => runShow files v input transpose json

end Fiff.Cli
