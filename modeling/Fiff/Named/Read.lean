import Fiff.Reader
import Fiff.Named.Basic
import Fiff.Named.Error

/-!
# Reading a labelled matrix

The block of a labelled matrix is looked up one level deep: a labelled-matrix block is used
itself when it has a tag of the wanted kind, and any other block offers the first of its
children that is a labelled-matrix block with such a tag. The data tag must hold a float
matrix; a row or column count tag, when present, must hold a signed word equal to the data's
count; label tags, when present, are split at `:`. An absent block is no error: it leaves an
`info` note and gives nothing. The matrix may be read from any tag source.
-/

set_option autoImplicit false

namespace Fiff

/-- How a labelled matrix is read back. -/
structure ReadOptions where
  transpose : Bool := false
  indent : String := "    "
  deriving DecidableEq, Inhabited

def Node.locateNamed? (n : Node) (kind : Int32) : Option Node :=
  if n.block = Block.namedMatrix then
    if n.hasTag kind then some n else none
  else n.children.find? fun c => c.block == Block.namedMatrix && c.hasTag kind

section

variable {ρ : Type} [TagRead ρ]

def checkCount (n : Node) (kind : Int32) (axis : Axis) (actual : Nat) :
    EStateM MatrixError ρ Unit := do
  match ← (TagRead.findTag n kind).adaptExcept .tag with
  | none => pure ()
  | some t =>
    match t.asInt with
    | .error e => throw (.tag e)
    | .ok declared =>
      if 0 ≤ declared ∧ declared.toInt.toNat = actual then pure ()
      else throw (.dimensionMismatch axis declared actual)

def readNames (n : Node) (kind : Int32) : EStateM MatrixError ρ (List String) := do
  match ← (TagRead.findTag n kind).adaptExcept .tag with
  | none => pure []
  | some t =>
    match t.asStr with
    | .error e => throw (.tag e)
    | .ok s => pure (Labels.split s)

def readNamedMatrix [Journal ρ] (n : Node) (kind : Int32) (opts : ReadOptions) :
    EStateM MatrixError ρ (Option NamedMatrix) := do
  match n.locateNamed? kind with
  | none =>
    modify fun r => Journal.note r ⟨.info, .matrixRead,
      s!"{opts.indent}Desired named matrix (kind = {kind.toInt}) not available"⟩
    pure none
  | some block =>
    let data ← match ← (TagRead.findTag block kind).adaptExcept .tag with
      | none => throw (.dataMissing kind)
      | some t => match t.asFloatMatrix with
        | .ok m => pure m
        | .error e => throw (.tag e)
    checkCount block Kind.nrow .rows data.rows
    checkCount block Kind.ncol .columns data.cols
    let rowNames ← readNames block Kind.rowNames
    let colNames ← readNames block Kind.colNames
    modify fun r => Journal.note r ⟨.debug, .matrixRead,
      s!"read named matrix (kind = {kind.toInt}): {data.rows}x{data.cols}, " ++
        s!"{rowNames.length} row names, {colNames.length} column names"⟩
    let m : NamedMatrix := ⟨data.rows, data.cols, rowNames, colNames, data⟩
    pure (some (if opts.transpose then m.transpose else m))

end

end Fiff
