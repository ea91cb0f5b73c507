import Fiff.Tag.Code

/-!
# Tag errors

Each way a tag can fail to be read or written is a constructor; `TagError.message` holds all of
their wording.
-/

set_option autoImplicit false

namespace Fiff

/-- Why a payload or a tag header cannot be read as it claims. -/
inductive Malformation where
  | intLength (size : Nat)
  | matrixTooShort (size : Nat)
  | matrixRank (ndim : Int32)
  | negativeDimensions (rows cols : Int32)
  | matrixValueBytes (available rows cols : Nat)
  | unsupportedType (ty : Int32)
  | oversizedMatrix (rows cols : Nat)
  | misplacedTag (found : Int32) (pos : Nat)
  | sizeDisagrees (header directory : Int32)
  | negativeSize (size : Int32)
  deriving DecidableEq

/-- Reads that run out of bytes. -/
inductive IoFailure where
  | shortRead
  | shortPayload (kind : Int32) (available size : Nat)
  deriving DecidableEq

/-- An error of the tag layer. -/
inductive TagError where
  | io (failure : IoFailure)
  | unexpectedType (kind : Int32) (expected found : DataKind)
  | malformedPayload (kind : Int32) (detail : Malformation)
  | invalidUtf8 (kind : Int32)
  | blockMismatch (expected found : Int32)
  | noOpenBlock (kind : Int32)
  | unclosedBlock (depth : Nat)
  | payloadTooLarge (kind : Int32) (size : Nat)
  deriving DecidableEq

namespace Malformation

def text : Malformation → String
  | intLength n => s!"int payload has {n} bytes, expected 4"
  | matrixTooShort n => s!"matrix payload has {n} bytes, too short for its dimensions"
  | matrixRank d => s!"expected a 2-D matrix, found {d.toInt} dimensions"
  | negativeDimensions r c => s!"negative matrix dimensions {r.toInt}x{c.toInt}"
  | matrixValueBytes t r c => s!"{t} value bytes do not hold a {r}x{c} float matrix"
  | unsupportedType ty => "unsupported data type " ++ hexOfInt32 ty
  | oversizedMatrix r c => s!"matrix dimensions {r}x{c} exceed the 32-bit limit"
  | misplacedTag k p => s!"found tag {k.toInt} at offset {p}"
  | sizeDisagrees h d => s!"header declares {h.toInt} payload bytes, directory says {d.toInt}"
  | negativeSize s => s!"negative payload size {s.toInt}"

end Malformation

def IoFailure.text : IoFailure → String
  | .shortRead => "failed to fill whole buffer"
  | .shortPayload k n s => s!"tag {k.toInt}: {n} of {s} payload bytes available"

/-- The text of a tag error. -/
def TagError.message : TagError → String
  | .io f => "I/O error: " ++ f.text
  | .unexpectedType k e f => s!"tag {k.toInt}: expected {e.name} data, found {f.name}"
  | .malformedPayload k d => s!"tag {k.toInt}: malformed payload: {d.text}"
  | .invalidUtf8 k => s!"tag {k.toInt}: string payload is not valid UTF-8"
  | .blockMismatch e f =>
    s!"block mismatch: innermost open block is {e.toInt}, tried to close {f.toInt}"
  | .noOpenBlock k => s!"cannot close block {k.toInt}: no block is open"
  | .unclosedBlock d => s!"{d} block(s) left open"
  | .payloadTooLarge k s => s!"tag {k.toInt}: payload of {s} bytes exceeds the tag size limit"

end Fiff
