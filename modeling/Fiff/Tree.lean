/-!
# Directory entries and the block tree

A stream's tags are listed by directory entries: kind, data type, payload size and the offset of
the tag's header. Blocks nest: a node has a block kind, the entries of the tags written directly
inside it (its own opening and closing tags included) and its child blocks in order.
-/

set_option autoImplicit false

namespace Fiff

/-- Where a tag sits in a stream and what its header says. -/
structure DirEntry where
  kind : Int32
  ty : Int32
  size : Int32
  pos : Nat
  deriving DecidableEq, Inhabited

/-- A block: its kind, the entries of its own tags and its child blocks. -/
structure Node where
  block : Int32
  directory : List DirEntry
  children : List Node
  deriving Inhabited

namespace Node

def empty (block : Int32) : Node := ⟨block, [], []⟩

def nchild (n : Node) : Nat := n.children.length

def hasTag (n : Node) (kind : Int32) : Bool := n.directory.any (·.kind == kind)

def entryOf (n : Node) (kind : Int32) : Option DirEntry := n.directory.find? (·.kind == kind)

def descend? (n : Node) : List Nat → Option Node
  | [] => some n
  | i :: rest => match n.children[i]? with
    | some c => c.descend? rest
    | none => none

theorem hasTag_eq_isSome_entryOf (n : Node) (kind : Int32) :
    n.hasTag kind = (n.entryOf kind).isSome := by
  rw [hasTag, entryOf, List.isSome_find?]

end Node

end Fiff
