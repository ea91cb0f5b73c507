import Fiff.Float.Format

/-!
# Single- and double-precision values

A value is its bit pattern, so two values are equal exactly when their patterns are: a
not-a-number keeps its payload and `-0` differs from `0`. Arithmetic is read through
`Fiff.Float.Format`: every operation here is the exact result rounded once.
-/

set_option autoImplicit false

namespace Fiff

open Fiff.Float

/-- A single-precision value, kept as its 32-bit pattern. -/
structure Binary32 where
  bits : UInt32
  deriving DecidableEq, Inhabited

/-- A double-precision value, kept as its 64-bit pattern. -/
structure Binary64 where
  bits : UInt64
  deriving DecidableEq, Inhabited

def Float.Format.orderKey (f : Format) (bits : Nat) : Int :=
  let magnitude := bits % f.signBit
  if f.isNegative bits then -(magnitude : Int) else magnitude

namespace Binary64

def classify (x : Binary64) : Decoded := binary64.classify x.bits.toNat

def isNaN (x : Binary64) : Bool := binary64.isNaN x.bits.toNat

def isFinite (x : Binary64) : Bool :=
  match x.classify with
  | .finite .. => true
  | _ => false

def isZero (x : Binary64) : Bool :=
  match x.classify with
  | .finite _ 0 _ => true
  | _ => false

def ofInt (i : Int) : Binary64 := ⟨(binary64.ofInt i).toUInt64⟩

def ofDecimal (neg : Bool) (digits : Nat) (exp : Int) : Binary64 :=
  ⟨(binary64.ofDecimal neg digits exp).toUInt64⟩

def infinity : Binary64 := ⟨binary64.infinityBits.toUInt64⟩

def nan : Binary64 := ⟨binary64.quietNaNBits.toUInt64⟩

def neg (x : Binary64) : Binary64 := ⟨x.bits ^^^ (binary64.signBit.toUInt64)⟩

def lt (x y : Binary64) : Bool :=
  !x.isNaN && !y.isNaN &&
    decide (binary64.orderKey x.bits.toNat < binary64.orderKey y.bits.toNat)

def div (x y : Binary64) : Binary64 :=
  match x.classify, y.classify with
  | .nan, _ => nan
  | _, .nan => nan
  | .infinite _, .infinite _ => nan
  | .infinite a, .finite b _ _ => if a != b then infinity.neg else infinity
  | .finite a _ _, .infinite b => ⟨(binary64.ofQuotient (a != b) 0 1).toUInt64⟩
  | .finite a m p, .finite b k q =>
    if k = 0 then
      if m = 0 then nan else if a != b then infinity.neg else infinity
    else
      let (n1, d1) := Format.exactQuotient m p
      let (n2, d2) := Format.exactQuotient k q
      ⟨(binary64.ofQuotient (a != b) (n1 * d2) (d1 * n2)).toUInt64⟩

end Binary64

namespace Binary32

def classify (x : Binary32) : Decoded := binary32.classify x.bits.toNat

def isNaN (x : Binary32) : Bool := binary32.isNaN x.bits.toNat

def ofBinary64 (x : Binary64) : Binary32 :=
  ⟨(convert binary64 binary32 x.bits.toNat).toUInt32⟩

def ofInt (i : Int) : Binary32 := ⟨(binary32.ofInt i).toUInt32⟩

def lt (x y : Binary32) : Bool :=
  !x.isNaN && !y.isNaN &&
    decide (binary32.orderKey x.bits.toNat < binary32.orderKey y.bits.toNat)

def min (x y : Binary32) : Binary32 :=
  if x.isNaN then y else if y.isNaN then x else if y.lt x then y else x

def max (x y : Binary32) : Binary32 :=
  if x.isNaN then y else if y.isNaN then x else if x.lt y then y else x

end Binary32

end Fiff
