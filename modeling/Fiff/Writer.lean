import Fiff.Tag.Data
import Fiff.Tree
import Fiff.Journal

/-!
# Writing a tag stream

A tag sink offers six calls (`TagWrite`): open and close a block, and write a signed word, a
text, a label list or a float matrix. A label list is written as one text, its labels joined
by `:`, unless the sink does otherwise.

The stream writer is one such sink. It holds the bytes written so far, the offset of the next
tag (counted apart from the bytes) and a stack of open blocks, innermost first, whose last
element is the root block. A tag is a 16-byte header (kind, data type, payload size and a zero
link, each a signed big-endian word) followed by its payload; its directory entry goes to the
innermost open block. Opening a block writes a `Kind.blockStart` tag whose payload is the block
kind into the new block; closing it writes a `Kind.blockEnd` tag into the block and hands the
block to its parent. A call that fails writes nothing.
-/

set_option autoImplicit false

namespace Fiff

/-- The calls of a tag sink. Every call appends to the stream; nothing is rolled back. -/
class TagWrite (σ : Type) where
  startBlock : Int32 → EStateM TagError σ Unit
  endBlock : Int32 → EStateM TagError σ Unit
  writeInt : Int32 → Int32 → EStateM TagError σ Unit
  writeString : Int32 → String → EStateM TagError σ Unit
  writeNameList : Int32 → List String → EStateM TagError σ Unit :=
    fun kind names => writeString kind (":".intercalate names)
  writeFloatMatrix : Int32 → Matrix → EStateM TagError σ Unit

/-- The state of a stream being written. -/
structure Writer where
  bytes : List UInt8
  pos : Nat
  stack : List Node
  notes : List Note
  deriving Inhabited

def Tag.header (kind ty size : Int32) : List UInt8 :=
  Word.ofInt32 kind ++ Word.ofInt32 ty ++ Word.ofInt32 size ++ Word.ofInt32 0

def maxPayload : Nat := 2147483647

namespace Writer

def new : Writer := ⟨[], 0, [Node.empty Block.root], []⟩

def position (w : Writer) : Nat := w.pos

def depth (w : Writer) : Nat := w.stack.length - 1

instance : Journal Writer := ⟨fun w n => { w with notes := w.notes ++ [n] }⟩

def note (w : Writer) (source : Source) (text : String) : Writer :=
  { w with notes := w.notes ++ [⟨.debug, source, text⟩] }

def record (w : Writer) (e : DirEntry) : Writer :=
  match w.stack with
  | [] => w
  | b :: rest => { w with stack := { b with directory := b.directory ++ [e] } :: rest }

def emit (w : Writer) (kind ty : Int32) (payload : List UInt8) :
    Except TagError (DirEntry × Writer) :=
  if payload.length ≤ maxPayload then
    let size := Int32.ofNat payload.length
    .ok (⟨kind, ty, size, w.pos⟩,
      { w with bytes := w.bytes ++ Tag.header kind ty size ++ payload,
               pos := w.pos + 16 + payload.length })
  else .error (.payloadTooLarge kind payload.length)

def writeTag (kind ty : Int32) (payload : List UInt8) : EStateM TagError Writer Unit :=
  fun w => match w.emit kind ty payload with
    | .ok (e, w') => .ok () (w'.record e)
    | .error err => .error err w

def startBlock (kind : Int32) : EStateM TagError Writer Unit :=
  fun w =>
    let w := w.note .tagWrite s!"start block {kind.toInt} at offset {w.pos}"
    match w.emit Kind.blockStart DataKind.int.code (Word.ofInt32 kind) with
    | .ok (e, w') => .ok () { w' with stack := ⟨kind, [e], []⟩ :: w'.stack }
    | .error err => .error err w

def adopt (w : Writer) (done : Node) : Writer :=
  match w.stack with
  | [] => w
  | b :: rest => { w with stack := { b with children := b.children ++ [done] } :: rest }

def closeInnermost (kind : Int32) : EStateM TagError Writer Unit :=
  fun w =>
    match (writeTag Kind.blockEnd DataKind.int.code (Word.ofInt32 kind)).run w with
    | .ok _ w' =>
      match w'.stack with
      | done :: rest =>
        let w'' := ({ w' with stack := rest } : Writer).note .tagWrite
          s!"end block {kind.toInt}: {done.directory.length} tags, {done.nchild} children"
        .ok () (w''.adopt done)
      | [] => .ok () w'
    | .error err s => .error err s

def endBlock (kind : Int32) : EStateM TagError Writer Unit :=
  fun w =>
    if w.stack.length ≤ 1 then .error (.noOpenBlock kind) w
    else match w.stack with
      | b :: _ =>
        if b.block ≠ kind then .error (.blockMismatch b.block kind) w else closeInnermost kind w
      | [] => closeInnermost kind w

def writeInt (kind value : Int32) : EStateM TagError Writer Unit :=
  writeTag kind DataKind.int.code (TagData.int value).encode

def writeString (kind : Int32) (value : String) : EStateM TagError Writer Unit :=
  writeTag kind DataKind.string.code (TagData.string value).encode

def maxDimension : Nat := 2147483647

def writeFloatMatrix (kind : Int32) (m : Matrix) : EStateM TagError Writer Unit :=
  fun w =>
    if m.rows ≤ maxDimension ∧ m.cols ≤ maxDimension then
      (writeTag kind DataKind.floatMatrix.code (TagData.floatMatrix m).encode).run w
    else .error (.malformedPayload kind (.oversizedMatrix m.rows m.cols)) w

/-- The bytes and the root block, when no block is open; the root is the block left on the
stack, or an empty block of kind `0` when none is. -/
def finish (w : Writer) : Except TagError (List UInt8 × Node) :=
  if w.depth > 0 then .error (.unclosedBlock w.depth) else .ok (w.bytes, w.stack.head?.getD default)

end Writer

instance : TagWrite Writer where
  startBlock := Writer.startBlock
  endBlock := Writer.endBlock
  writeInt := Writer.writeInt
  writeString := Writer.writeString
  writeFloatMatrix := Writer.writeFloatMatrix

end Fiff
