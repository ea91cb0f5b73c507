import Fiff.Tag.Error
import Fiff.Float.Binary
import Fiff.Decimal.General

/-!
# Errors of labelled matrices

Each way of failing to write or read a labelled matrix is a constructor, an error of the tag
layer among them; `MatrixError.message` holds all of their wording. The shape error carries the
factor by which the data is off, written with six significant digits.
-/

set_option autoImplicit false

namespace Fiff

/-- An axis of a matrix. -/
inductive Axis where
  | rows
  | columns
  deriving DecidableEq, Inhabited

def Axis.noun : Axis → String
  | rows => "rows"
  | columns => "columns"

/-- An error of the labelled-matrix layer. -/
inductive MatrixError where
  | dataMissing (kind : Int32)
  | dimensionMismatch (axis : Axis) (tag : Int32) (actual : Nat)
  | shapeMismatch (nrow ncol expected actual : Nat) (ratio : Binary64)
  | labelCountMismatch (axis : Axis) (names expected : Nat)
  | dimensionOverflow (value : Nat)
  | tag (e : TagError)
  deriving DecidableEq

/-- The text of a labelled-matrix error. -/
def MatrixError.message : MatrixError → String
  | .dataMissing k => s!"matrix data missing (kind = {k.toInt})"
  | .dimensionMismatch a t n =>
    s!"number of {a.noun} in matrix data ({n}) and count tag ({t.toInt}) do not match"
  | .shapeMismatch r c e n ratio =>
    s!"cannot write matrix: row ({r}) and column ({c}) total element ({e}) mismatch with data " ++
      s!"size ({n}), appears to be off by a factor of " ++ Decimal.general ratio ++ "x"
  | .labelCountMismatch a n e => s!"{n} labels given for {e} {a.noun}"
  | .dimensionOverflow v => s!"matrix dimension {v} does not fit in a 32-bit tag"
  | .tag e => "tag error: " ++ e.message

end Fiff
