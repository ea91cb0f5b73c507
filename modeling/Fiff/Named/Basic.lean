import Fiff.Matrix

/-!
# Labelled matrices

A labelled matrix carries its declared row and column counts, a label per row and per column
(an empty list when an axis is unlabelled) and its data. Nothing ties the counts or the labels
to the data: the writer checks them. Transposing swaps the counts, the label lists and the axes
of the data. Labels travel joined by `:` and come back split at every `:`.
-/

set_option autoImplicit false

namespace Fiff

/-- A matrix with row and column labels. -/
structure NamedMatrix where
  nrow : Nat
  ncol : Nat
  rowNames : List String
  colNames : List String
  data : Matrix
  deriving DecidableEq, Inhabited

namespace NamedMatrix

def ofMatrix (m : Matrix) : NamedMatrix := ⟨m.rows, m.cols, [], [], m⟩

def transpose (m : NamedMatrix) : NamedMatrix :=
  ⟨m.ncol, m.nrow, m.colNames, m.rowNames, m.data.transpose⟩

end NamedMatrix

namespace Labels

def join (names : List String) : String := ":".intercalate names

def split (s : String) : List String := (s.split ':').toList.map (·.copy)

end Labels

end Fiff
