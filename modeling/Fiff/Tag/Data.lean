import Fiff.Word
import Fiff.Matrix
import Fiff.Tag.Error

/-!
# Tag payloads

A payload is a signed word, a UTF-8 text or a float matrix. `TagData.encode` writes it and
`TagData.decode` reads it back given the data type code. A float matrix is written as its entries
in row-major order, each a big-endian pattern, followed by the column count, the row count and
the rank `2`, each a signed big-endian word; counts beyond a signed word wrap.
-/

set_option autoImplicit false

namespace Fiff

/-- A tag's payload. -/
inductive TagData where
  | int (value : Int32)
  | string (text : String)
  | floatMatrix (m : Matrix)
  deriving DecidableEq

/-- A tag: a kind and its payload. -/
structure Tag where
  kind : Int32
  data : TagData
  deriving DecidableEq

namespace Matrix

/-- The payload bytes of a matrix. -/
def encode (m : Matrix) : List UInt8 :=
  Word.ofUInt32s (m.entries.map Binary32.bits) ++ Word.bytes 4 m.cols ++ Word.bytes 4 m.rows ++
    Word.ofInt32 2

/-- Reads a matrix payload; the errors carry the tag kind `kind`. -/
def decode (kind : Int32) (bytes : List UInt8) : Except TagError Matrix :=
  let bad := fun d => Except.error (TagError.malformedPayload kind d)
  if bytes.length < 12 then bad (.matrixTooShort bytes.length) else
  let available := bytes.length - 12
  let dims := bytes.drop available
  let ncol := Word.toInt32 (dims.take 4)
  let nrow := Word.toInt32 ((dims.drop 4).take 4)
  let ndim := Word.toInt32 (dims.drop 8)
  if ndim ≠ 2 then bad (.matrixRank ndim) else
  if nrow < 0 ∨ ncol < 0 then bad (.negativeDimensions nrow ncol) else
  let r := nrow.toInt.toNat
  let c := ncol.toInt.toNat
  if r * c * 4 = available then
    match ofShape? r c ((Word.toUInt32s (bytes.take available)).map Binary32.mk) with
    | some m => .ok m
    | none => bad (.matrixValueBytes available r c)
  else bad (.matrixValueBytes available r c)

end Matrix

namespace TagData

def kind : TagData → DataKind
  | int _ => .int
  | string _ => .string
  | floatMatrix _ => .floatMatrix

def typeCode (d : TagData) : Int32 := d.kind.code

/-- The payload bytes. -/
def encode : TagData → List UInt8
  | int v => Word.ofInt32 v
  | string s => s.toUTF8.data.toList
  | floatMatrix m => m.encode

/-- Reads a payload of data type `ty`; the errors carry the tag kind `kind`. -/
def decode (kind ty : Int32) (bytes : List UInt8) : Except TagError TagData :=
  if ty = DataKind.int.code then
    if bytes.length = 4 then .ok (int (Word.toInt32 bytes))
    else .error (.malformedPayload kind (.intLength bytes.length))
  else if ty = DataKind.string.code then
    match String.fromUTF8? ⟨bytes.toArray⟩ with
    | some s => .ok (string s)
    | none => .error (.invalidUtf8 kind)
  else if ty = DataKind.floatMatrix.code then
    (Matrix.decode kind bytes).map floatMatrix
  else .error (.malformedPayload kind (.unsupportedType ty))

end TagData

namespace Tag

def unexpected (t : Tag) (expected : DataKind) : TagError :=
  .unexpectedType t.kind expected t.data.kind

def asInt (t : Tag) : Except TagError Int32 :=
  match t.data with
  | .int v => .ok v
  | _ => .error (t.unexpected .int)

def asStr (t : Tag) : Except TagError String :=
  match t.data with
  | .string s => .ok s
  | _ => .error (t.unexpected .string)

def asFloatMatrix (t : Tag) : Except TagError Matrix :=
  match t.data with
  | .floatMatrix m => .ok m
  | _ => .error (t.unexpected .floatMatrix)

end Tag

end Fiff
