import Fiff.Schema
import Fiff.Toml.Report

/-!
# Reading records from TOML documents

A record is read from the root table of a document: each key that names a field is read against
the field's shape, in the order the document gives them, and other keys are ignored. A value of
the wrong kind is reported at its own span; a field that is left out takes its fallback, and
without one it is missing. Integers are accepted where single-precision values are expected,
and floating-point values are rounded to single precision, so large ones become infinite.
-/

set_option autoImplicit false

namespace Fiff

/-- The text of a double-precision value in an error: positional, with a point on finite values
that have none. -/
def Binary64.withPoint (x : Binary64) : String :=
  let t := x.display
  if x.isFinite && !t.contains '.' then t ++ ".0" else t

namespace Toml

def Value.unexpected : Value → Unexpected
  | .string _ s => .str s
  | .integer _ i => .integer i
  | .float _ x => .float x
  | .bool _ b => .bool b
  | .datetime .. => .map
  | .array .. => .seq
  | .table .. => .map

abbrev Misfit := DataError × Span

def Value.toSingle (v : Value) : Except Misfit Binary32 :=
  match v with
  | .integer _ i => .ok (Binary32.ofInt i)
  | .float _ x => .ok (Binary32.ofBinary64 x)
  | _ => .error (.invalidType v.unexpected "f32", v.span)

def Value.toRow (v : Value) : Except Misfit (List Binary32) :=
  match v with
  | .array _ items _ => items.mapM Value.toSingle
  | _ => .error (.invalidType v.unexpected "a sequence", v.span)

def Value.toDatum (v : Value) : Shape → Except Misfit Datum
  | .bool => match v with
    | .bool _ b => .ok (.bool b)
    | _ => .error (.invalidType v.unexpected "a boolean", v.span)
  | .string => match v with
    | .string _ s => .ok (.string s)
    | _ => .error (.invalidType v.unexpected "a string", v.span)
  | .usize => match v with
    | .integer _ i =>
      if 0 ≤ i ∧ i.toNat ≤ usizeMax then .ok (.nat i.toNat)
      else .error (.invalidValue (.integer i) "usize", v.span)
    | _ => .error (.invalidType v.unexpected "usize", v.span)
  | .int32 => match v with
    | .integer _ i =>
      if -2147483648 ≤ i ∧ i ≤ 2147483647 then .ok (.int32 (Int32.ofInt i))
      else .error (.invalidValue (.integer i) "i32", v.span)
    | _ => .error (.invalidType v.unexpected "i32", v.span)
  | .single => v.toSingle.map Datum.single
  | .option s => (v.toDatum s).map Datum.some
  | .seq s => match v with
    | .array _ items _ => (items.mapM fun (item : Value) => item.toDatum s).map Datum.list
    | _ => .error (.invalidType v.unexpected "a sequence", v.span)
  | .rows => match v with
    | .array _ items _ => do
      let rows ← items.mapM Value.toRow
      match Datum.toMatrix (rows.map fun r => .list (r.map Datum.single)) with
      | .ok m => pure (.matrix m)
      | .error e => .error (e, v.span)
    | _ => .error (.invalidType v.unexpected "a sequence", v.span)

def readEntries (r : Record) (entries : List (String × Value)) : Except Error (List Datum) := do
  let mut found : List (String × Datum) := []
  for (k, v) in entries do
    match r.fields.find? (·.name == k) with
    | none => pure ()
    | some f =>
      match v.toDatum f.shape with
      | .ok d => found := found ++ [(k, d)]
      | .error (e, span) => throw ⟨e.message Binary64.withPoint, some span⟩
  r.fields.mapM fun f =>
    match (found.find? (·.1 == f.name)).map (·.2) with
    | some d => pure d
    | none => match f.fallback with
      | some d => pure d
      | none => throw ⟨(DataError.missingField f.name).message Binary64.withPoint, none⟩

def readRecord (r : Record) (text : String) : Except Error (List Datum) :=
  match parse text with
  | .error f => .error f.toError
  | .ok root => readEntries r root

end Toml

end Fiff
