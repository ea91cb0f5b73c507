import Fiff.Writer
import Fiff.Named.Basic
import Fiff.Named.Error

/-!
# Writing a labelled matrix

A labelled matrix is written as one block: its opening tag, the row and column counts, the row
labels and the column labels when there are any, the data under the requested kind, and the
closing tag. Before anything is written, the declared counts must multiply (saturating at the
word size) to the number of entries and each must fit a signed word; a label list that is not
empty must have one label per row or column, and a failing label check leaves the block open.
The matrix may be written to any tag sink.
-/

set_option autoImplicit false

namespace Fiff

def wordMax : Nat := Nat.pow 2 64 - 1

def saturatingMul (a b : Nat) : Nat := min (a * b) wordMax

def offByFactor (expected actual : Nat) : Binary64 :=
  let ratio := (Binary64.ofInt expected).div (Binary64.ofInt actual)
  if expected < actual ∧ (Binary64.ofInt 0).lt ratio then (Binary64.ofInt 1).div ratio
  else ratio

def dimensionTag (value : Nat) : Except MatrixError Int32 :=
  if value ≤ Writer.maxDimension then .ok (Int32.ofNat value) else .error (.dimensionOverflow value)

section

variable {σ : Type} [TagWrite σ]

def writeLabels (kind : Int32) (axis : Axis) (names : List String) (expected : Nat) :
    EStateM MatrixError σ Unit :=
  if names.isEmpty then pure ()
  else if names.length ≠ expected then throw (.labelCountMismatch axis names.length expected)
  else (TagWrite.writeNameList kind names).adaptExcept .tag

def writeNamedMatrix [Journal σ] (kind : Int32) (m : NamedMatrix) : EStateM MatrixError σ Unit := do
  let expected := saturatingMul m.nrow m.ncol
  let actual := m.data.entries.length
  if expected ≠ actual then
    throw (.shapeMismatch m.nrow m.ncol expected actual (offByFactor expected actual))
  let nrow ← match dimensionTag m.nrow with
    | .ok v => pure v
    | .error e => throw e
  let ncol ← match dimensionTag m.ncol with
    | .ok v => pure v
    | .error e => throw e
  modify fun w => Journal.note w ⟨.debug, .matrixWrite,
    s!"writing named matrix (kind = {kind.toInt}): {nrow.toInt}x{ncol.toInt}"⟩
  (TagWrite.startBlock Block.namedMatrix).adaptExcept .tag
  (TagWrite.writeInt Kind.nrow nrow).adaptExcept .tag
  (TagWrite.writeInt Kind.ncol ncol).adaptExcept .tag
  writeLabels Kind.rowNames .rows m.rowNames m.nrow
  writeLabels Kind.colNames .columns m.colNames m.ncol
  (TagWrite.writeFloatMatrix kind m.data).adaptExcept .tag
  (TagWrite.endBlock Block.namedMatrix).adaptExcept .tag

end

end Fiff
