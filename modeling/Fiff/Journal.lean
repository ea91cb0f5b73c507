/-!
# Diagnostic notes

Reading and writing leave notes on the way: an `info` note when something asked for is absent,
`debug` notes for each block opened or closed and each tag read. A note records its level, the
layer that made it and its text, so a front end can choose which to show. Notes go to the
state the work is done in: a writer or reader keeps the notes left while it is used.
-/

set_option autoImplicit false

namespace Fiff

/-- How much a note matters. -/
inductive Level where
  | info
  | debug
  deriving DecidableEq, Inhabited

/-- The layer that made a note. -/
inductive Source where
  | tagWrite
  | tagRead
  | matrixWrite
  | matrixRead
  | command
  deriving DecidableEq, Inhabited

/-- One diagnostic note. -/
structure Note where
  level : Level
  source : Source
  text : String
  deriving DecidableEq, Inhabited

/-- A state that keeps the notes left while it is used. -/
class Journal (σ : Type) where
  note : σ → Note → σ

end Fiff
