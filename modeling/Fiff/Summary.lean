import Fiff.Description
import Fiff.Named.Write
import Fiff.Named.Read

/-!
# Summaries of described matrices

A description is checked by the round trip it is meant for: its labelled matrix is written as a
block under the description's kind, the stream is finished, and the matrix is read back from it.
The summary reports what came back: counts, labels, the least and greatest value (a
not-a-number gives way to any other value) and the length of the stream. The notes of writing
and reading are kept, up to a failure.
-/

set_option autoImplicit false

namespace Fiff

/-- What a round trip of a described matrix reports. -/
structure Summary where
  kind : Int32
  nrow : Nat
  ncol : Nat
  rowNames : List String
  colNames : List String
  min : Option Binary32
  max : Option Binary32
  encodedBytes : Nat
  deriving Inhabited

/-- Why a described matrix fails its round trip. -/
inductive CheckError where
  | ragged (r : RaggedRow)
  | matrix (e : MatrixError)
  | unfinished (e : TagError)
  | vanished
  deriving Inhabited

/-- The causes of a tag error, outermost first: a failed input or output names its cause
again. -/
def TagError.causes (e : TagError) : List String :=
  match e with
  | .io f => [e.message, f.text]
  | _ => [e.message]

def MatrixError.causes (e : MatrixError) : List String :=
  match e with
  | .tag t => e.message :: t.causes
  | _ => [e.message]

def CheckError.causes : CheckError → List String
  | .ragged r => [r.message]
  | .matrix e => e.causes
  | .unfinished e => e.causes
  | .vanished => ["named matrix missing after encoding"]

def combine (f : Binary32 → Binary32 → Binary32) : List Binary32 → Option Binary32
  | [] => none
  | x :: xs => some (xs.foldl f x)

/-- Writes a described matrix as a block, reads it back and summarises it, with the notes of
writing and reading. -/
def summarize (d : Description) (opts : ReadOptions) : List Note × Except CheckError Summary :=
  match d.toNamed with
  | .error r => ([], .error (.ragged r))
  | .ok m =>
    match (writeNamedMatrix d.kind m).run Writer.new with
    | .error e w => (w.notes, .error (.matrix e))
    | .ok () w =>
      match w.finish with
      | .error e => (w.notes, .error (.unfinished e))
      | .ok (bytes, root) =>
        match (readNamedMatrix root d.kind opts).run (Reader.new bytes) with
        | .error e r => (w.notes ++ r.notes, .error (.matrix e))
        | .ok none r => (w.notes ++ r.notes, .error .vanished)
        | .ok (some got) r =>
          (w.notes ++ r.notes, .ok ⟨d.kind, got.nrow, got.ncol, got.rowNames, got.colNames,
            combine Binary32.min got.data.entries, combine Binary32.max got.data.entries,
            bytes.length⟩)

end Fiff
