import Fiff.Tag.Data
import Fiff.Tree
import Fiff.Journal

/-!
# Reading a tag stream

A tag source (`TagRead`) fetches the first tag of a kind stored directly in a block.

The stream reader is one such source. It holds a stream and a cursor. Reading a tag seeks to its entry's offset, reads the
16-byte header, checks it against the entry, reads the payload and decodes it with the header's
data type. A read that runs out of bytes leaves the cursor at the end of the stream; a payload
read leaves it after the last byte taken.
-/

set_option autoImplicit false

namespace Fiff

/-- Fetches tags belonging to a block. -/
class TagRead (ρ : Type) where
  findTag : Node → Int32 → EStateM TagError ρ (Option Tag)

/-- A stream being read, with its cursor. -/
structure Reader where
  bytes : List UInt8
  cursor : Nat
  notes : List Note
  deriving Inhabited

namespace Reader

def new (bytes : List UInt8) : Reader := ⟨bytes, 0, []⟩

instance : Journal Reader := ⟨fun r n => { r with notes := r.notes ++ [n] }⟩

def note (r : Reader) (level : Level) (source : Source) (text : String) : Reader :=
  { r with notes := r.notes ++ [⟨level, source, text⟩] }

def header? (bytes : List UInt8) (pos : Nat) : Option (Int32 × Int32 × Int32) :=
  let h := (bytes.drop pos).take 16
  if h.length = 16 then
    some (Word.toInt32 (h.take 4), Word.toInt32 ((h.drop 4).take 4),
      Word.toInt32 ((h.drop 8).take 4))
  else none

def readTag (e : DirEntry) : EStateM TagError Reader Tag :=
  fun r =>
    match header? r.bytes e.pos with
    | none => .error (.io .shortRead) { r with cursor := r.bytes.length }
    | some (kind, ty, size) =>
      let r := { r with cursor := e.pos + 16 }
      if kind ≠ e.kind then .error (.malformedPayload e.kind (.misplacedTag kind e.pos)) r
      else if size ≠ e.size then .error (.malformedPayload kind (.sizeDisagrees size e.size)) r
      else if size < 0 then .error (.malformedPayload kind (.negativeSize size)) r
      else
        let want := size.toInt.toNat
        let payload := ((r.bytes.drop r.cursor).take want)
        let r := { r with cursor := r.cursor + payload.length }
        if payload.length ≠ want then
          .error (.io (.shortPayload kind payload.length want)) r
        else
          let r := r.note .debug .tagRead
            s!"read tag {kind.toInt} (type {hexOfInt32 ty}, {want} bytes) at offset {e.pos}"
          match TagData.decode kind ty payload with
          | .ok d => .ok ⟨e.kind, d⟩ r
          | .error err => .error err r

def findTag (n : Node) (kind : Int32) : EStateM TagError Reader (Option Tag) :=
  match n.entryOf kind with
  | some e => do return some (← readTag e)
  | none => pure none

end Reader

instance : TagRead Reader := ⟨Reader.findTag⟩

end Fiff
