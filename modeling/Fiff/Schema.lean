import Fiff.Matrix
import Fiff.Decimal.Layout

/-!
# Record shapes for documents

Documents (JSON or TOML text) are read against a record shape: a name and its fields, each with
the shape of its value and, when it may be left out, the value it then takes. Reading gives one
`Datum` per field, in field order. The wording of the data errors is shared by both document
formats; only the text of a floating-point number differs between them.
-/

set_option autoImplicit false

namespace Fiff

/-- What a field's value must be. -/
inductive Shape where
  | bool
  | string
  | usize
  | int32
  | single
  | option (s : Shape)
  | seq (s : Shape)
  | rows
  deriving Inhabited

/-- A value read against a shape. -/
inductive Datum where
  | bool (b : Bool)
  | string (s : String)
  | nat (n : Nat)
  | int32 (i : Int32)
  | single (x : Binary32)
  | none
  | some (d : Datum)
  | list (items : List Datum)
  | matrix (m : Matrix)
  deriving Inhabited

/-- A field of a record: its name, its shape and the value it takes when left out. -/
structure Field where
  name : String
  shape : Shape
  fallback : Option Datum

/-- A record: its name and fields in order. -/
structure Record where
  name : String
  fields : List Field

/-- What was found where something else was expected. -/
inductive Unexpected where
  | bool (b : Bool)
  | integer (i : Int)
  | float (x : Binary64)
  | str (s : String)
  | null
  | seq
  | map

/-- An error in a document's data. -/
inductive DataError where
  | invalidType (found : Unexpected) (expected : String)
  | invalidValue (found : Unexpected) (expected : String)
  | invalidLength (n : Nat) (expected : String)
  | missingField (name : String)
  | duplicateField (name : String)
  | raggedRow (index length width : Nat)

def Shape.expecting : Shape → String
  | bool => "a boolean"
  | string => "a string"
  | usize => "usize"
  | int32 => "i32"
  | single => "f32"
  | option s => s.expecting
  | seq _ => "a sequence"
  | rows => "a sequence"

def Record.expecting (r : Record) : String := "struct " ++ r.name

def Record.expectingItems (r : Record) : String :=
  s!"struct {r.name} with {r.fields.length} elements"

def debugChar (c : Char) : String :=
  if c = '"' then "\\\""
  else if c = '\\' then "\\\\"
  else if c = '\n' then "\\n"
  else if c = '\r' then "\\r"
  else if c = '\t' then "\\t"
  else if c = '\x00' then "\\0"
  else if c.toNat < 0x20 ∨ c.toNat = 0x7f then
    "\\u" ++ "\x7b" ++ String.ofList (Nat.toDigits 16 c.toNat) ++ "\x7d"
  else c.toString

def debugQuote (s : String) : String :=
  "\"" ++ String.join (s.toList.map debugChar) ++ "\""

def Unexpected.describe (float : Binary64 → String) : Unexpected → String
  | .bool b => s!"boolean `{b}`"
  | .integer i => s!"integer `{i}`"
  | .float x => "floating point `" ++ float x ++ "`"
  | .str s => "string " ++ debugQuote s
  | .null => "null"
  | .seq => "sequence"
  | .map => "map"

def DataError.message (float : Binary64 → String) : DataError → String
  | .invalidType u e => "invalid type: " ++ u.describe float ++ ", expected " ++ e
  | .invalidValue u e => "invalid value: " ++ u.describe float ++ ", expected " ++ e
  | .invalidLength n e => s!"invalid length {n}, expected {e}"
  | .missingField f => s!"missing field `{f}`"
  | .duplicateField f => s!"duplicate field `{f}`"
  | .raggedRow i n w => s!"row {i} has {n} values, expected {w}"

/-- A number as a document holds it: an integer or an exact decimal `±digits · 10^exp`. -/
inductive Number where
  | integer (i : Int)
  | decimal (neg : Bool) (digits : Nat) (exp : Int)

def Number.toBinary64 : Number → Binary64
  | .integer i => Binary64.ofInt i
  | .decimal neg d e => Binary64.ofDecimal neg d e

def Number.unexpected : Number → Unexpected
  | .integer i => .integer i
  | .decimal neg d e => .float (Binary64.ofDecimal neg d e)

def usizeMax : Nat := Nat.pow 2 64 - 1

/-- A number read as a machine-word count, a signed word or a single-precision value; `single`
says how a decimal becomes a single-precision value. -/
def Number.toDatum (single : Bool → Nat → Int → Except DataError Binary32) (n : Number) :
    Shape → Except DataError Datum
  | .usize => match n with
    | .integer i =>
      if 0 ≤ i ∧ i.toNat ≤ usizeMax then .ok (.nat i.toNat) else .error (.invalidValue (.integer i) "usize")
    | _ => .error (.invalidType n.unexpected "usize")
  | .int32 => match n with
    | .integer i =>
      if -2147483648 ≤ i ∧ i ≤ 2147483647 then .ok (.int32 (Int32.ofInt i))
      else .error (.invalidValue (.integer i) "i32")
    | _ => .error (.invalidType n.unexpected "i32")
  | .single => match n with
    | .integer i => .ok (.single (Binary32.ofInt i))
    | .decimal neg d e => (single neg d e).map Datum.single
  | .option s => (n.toDatum single s).map Datum.some
  | s => .error (.invalidType n.unexpected s.expecting)

def Datum.toMatrix (rows : List Datum) : Except DataError Matrix :=
  let values := rows.map fun r => match r with
    | .list xs => xs.map fun x => match x with
      | .single v => v
      | _ => default
    | _ => []
  match Matrix.ofRows values with
  | .ok m => .ok m
  | .error (i, n) => .error (.raggedRow i n ((values.head?.map List.length).getD 0))

end Fiff
