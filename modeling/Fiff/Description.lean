import Fiff.Named.Json
import Fiff.Toml.Decode

/-!
# Matrix descriptions

A matrix description is a small document, in TOML or JSON, that lists the rows of a matrix with
optional labels, the tag kind to store the data under, and counts that override the ones the
rows give. Every field may be left out: the kind is then the forward solution's, the counts come
from the rows and the lists are empty. Turning a description into a labelled matrix fails when a
row is not as long as the first.
-/

set_option autoImplicit false

namespace Fiff

/-- The text format a description is written in. -/
inductive TextFormat where
  | toml
  | json
  deriving DecidableEq, Inhabited

/-- A matrix as a document describes it. -/
structure Description where
  kind : Int32
  nrow : Option Nat
  ncol : Option Nat
  rowNames : List String
  colNames : List String
  data : List (List Binary32)
  deriving Inhabited

/-- A row whose length differs from the first row's: its index, its length and the first row's
length. -/
structure RaggedRow where
  index : Nat
  length : Nat
  width : Nat
  deriving DecidableEq, Inhabited

def RaggedRow.message (r : RaggedRow) : String :=
  s!"row {r.index} has {r.length} values, expected {r.width}"

namespace Description

def record : Record :=
  ⟨"MatrixDescription", [⟨"kind", .int32, some (.int32 Kind.forwardSolution)⟩,
    ⟨"nrow", .option .usize, some .none⟩, ⟨"ncol", .option .usize, some .none⟩,
    ⟨"row_names", .seq .string, some (.list [])⟩, ⟨"col_names", .seq .string, some (.list [])⟩,
    ⟨"data", .seq (.seq .single), some (.list [])⟩]⟩

def int32Of : Datum → Int32
  | .int32 i => i
  | _ => Kind.forwardSolution

def countOf : Datum → Option Nat
  | .some (.nat n) => some n
  | _ => none

def singleOf : Datum → Binary32
  | .single x => x
  | _ => default

def rowsOf : Datum → List (List Binary32)
  | .list rows => rows.map fun r => match r with
    | .list xs => xs.map singleOf
    | _ => []
  | _ => []

def ofFields : List Datum → Description
  | [kind, nrow, ncol, rows, cols, data] =>
    ⟨int32Of kind, countOf nrow, countOf ncol, NamedMatrix.stringsOf rows,
      NamedMatrix.stringsOf cols, rowsOf data⟩
  | _ => default

def parse (n : TextFormat) (text : String) : Except String Description :=
  match n with
  | .json => match Json.readRecord record text with
    | .ok fields => .ok (ofFields fields)
    | .error e => .error e.text
  | .toml => match Toml.readRecord record text with
    | .ok fields => .ok (ofFields fields)
    | .error e => .error (e.render text)

/-- The labelled matrix described: its data from the rows, its counts from the rows unless the
description overrides them. -/
def toNamed (d : Description) : Except RaggedRow NamedMatrix :=
  match Matrix.ofRows d.data with
  | .error (i, n) => .error ⟨i, n, (d.data.head?.map List.length).getD 0⟩
  | .ok m => .ok ⟨d.nrow.getD m.rows, d.ncol.getD m.cols, d.rowNames, d.colNames, m⟩

end Description

end Fiff
