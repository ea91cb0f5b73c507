import Fiff.Named.Read
import Fiff.Json.Value
import Fiff.Json.Read

/-!
# Labelled matrices and read options as JSON

A labelled matrix is written as an object with its counts, its two label lists and its data as
a list of rows, each value in interchange text; a value with no finite text is `null`. It is
read back from the same form, or from a list of the five fields in order; the label lists may
be left out and the rows must all be as long as the first. Read options are written and read
the same way, every field optional.
-/

set_option autoImplicit false

namespace Fiff

open Fiff.Json

def Binary32.toJson (x : Binary32) : Value :=
  match x.interchange? with
  | some t => .number t
  | none => .null

def Labels.toJson (names : List String) : Value := .array (names.map Value.string)

namespace NamedMatrix

def toJson (m : NamedMatrix) : Value :=
  .object [("nrow", .number (Decimal.digits m.nrow)), ("ncol", .number (Decimal.digits m.ncol)),
    ("row_names", Labels.toJson m.rowNames), ("col_names", Labels.toJson m.colNames),
    ("data", .array (m.data.toRows.map fun r => .array (r.map Binary32.toJson)))]

def record : Record :=
  ⟨"NamedMatrix", [⟨"nrow", .usize, none⟩, ⟨"ncol", .usize, none⟩,
    ⟨"row_names", .seq .string, some (.list [])⟩, ⟨"col_names", .seq .string, some (.list [])⟩,
    ⟨"data", .rows, none⟩]⟩

def stringsOf : Datum → List String
  | .list items => items.filterMap fun d => match d with
    | .string s => some s
    | _ => none
  | _ => []

def natOf : Datum → Nat
  | .nat n => n
  | _ => 0

def ofFields : List Datum → NamedMatrix
  | [nrow, ncol, rows, cols, .matrix m] => ⟨natOf nrow, natOf ncol, stringsOf rows, stringsOf cols, m⟩
  | _ => default

def ofJson (text : String) : Except Located NamedMatrix :=
  (readRecord record text).map ofFields

end NamedMatrix

namespace ReadOptions

def toJson (o : ReadOptions) : Value :=
  .object [("transpose", .bool o.transpose), ("indent", .string o.indent)]

def record : Record :=
  ⟨"ReadOptions", [⟨"transpose", .bool, some (.bool false)⟩, ⟨"indent", .string, some (.string "    ")⟩]⟩

def ofFields : List Datum → ReadOptions
  | [.bool t, .string i] => ⟨t, i⟩
  | _ => default

def ofJson (text : String) : Except Located ReadOptions :=
  (readRecord record text).map ofFields

end ReadOptions

end Fiff
