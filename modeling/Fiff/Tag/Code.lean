/-!
# Tag kinds, block kinds and data types

The numbers that the named-matrix layout gives its tags and blocks, and the data type codes of
payloads. A data type is one of three kinds of payload; `typeName` names any code, and codes
outside the three (the plain `float` code included) are never decoded.
-/

set_option autoImplicit false

namespace Fiff

namespace Kind

def blockStart : Int32 := 104
def blockEnd : Int32 := 105
def rowNames : Int32 := 3502
def colNames : Int32 := 3503
def nrow : Int32 := 3504
def ncol : Int32 := 3505
def forwardSolution : Int32 := 3562
def forwardSolutionGrad : Int32 := 3563

end Kind

namespace Block

def root : Int32 := 999
def namedMatrix : Int32 := 357

end Block

/-- The three kinds of payload. -/
inductive DataKind where
  | int
  | string
  | floatMatrix
  deriving DecidableEq, Inhabited

namespace DataKind

def code : DataKind → Int32
  | int => 3
  | string => 10
  | floatMatrix => 0x40000004

def name : DataKind → String
  | int => "int"
  | string => "string"
  | floatMatrix => "float matrix"

end DataKind

/-- The name of a data type code; codes without a name are "unknown". -/
def typeName (ty : Int32) : String :=
  if ty = 3 then "int"
  else if ty = 4 then "float"
  else if ty = 10 then "string"
  else if ty = 0x40000004 then "float matrix"
  else "unknown"

/-- Lower-case hexadecimal with a `0x` mark; a negative word is shown by its two's-complement
pattern. -/
def hexOfInt32 (x : Int32) : String :=
  "0x" ++ String.ofList (Nat.toDigits 16 x.toUInt32.toNat)

end Fiff
