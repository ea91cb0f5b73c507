import Fiff.Float.Binary
import Fiff.Decimal.Shortest

/-!
# Layouts of shortest float text

The shortest digits of a value are laid out by a small record: how far positional notation
reaches before an exponent is used, whether a whole number keeps a `.0`, and whether a positive
exponent carries a `+`. With `k` the power of ten of the digit string's end and `kk` the digit
count plus `k`, a value is written as digits followed by zeros when `0 ≤ k` and
`kk ≤ plainUpTo`, with a point inside its digits when `0 < kk ≤ plainUpTo`, as `0.` and zeros
when `plainAbove < kk ≤ 0`, and with one digit before the point and an exponent otherwise.
-/

set_option autoImplicit false

namespace Fiff.Decimal

/-- How shortest digits are written. -/
structure Layout where
  plainUpTo : Int
  plainAbove : Int
  wholeMark : Bool
  plusExponent : Bool

def positional : Layout := ⟨1000, -1000, false, false⟩

/-- Single-precision values as the JSON writer prints them: `1.0`, `1e-30`, `1.5e-7`,
`3.4028235e+38`, a positive exponent with its sign. -/
def interchange32 : Layout := ⟨13, -6, true, true⟩

def interchange64 : Layout := ⟨16, -5, true, true⟩

def zeros (n : Nat) : String := String.ofList (List.replicate n '0')

def Layout.render (l : Layout) (c : Nat) (k : Int) : String :=
  let ds := digits c
  let n : Int := ds.length
  let kk := n + k
  if 0 ≤ k ∧ kk ≤ l.plainUpTo then
    ds ++ zeros k.toNat ++ (if l.wholeMark then ".0" else "")
  else if 0 < kk ∧ kk ≤ l.plainUpTo then
    String.ofList (ds.toList.take kk.toNat) ++ "." ++ String.ofList (ds.toList.drop kk.toNat)
  else if l.plainAbove < kk ∧ kk ≤ 0 then
    "0." ++ zeros (-kk).toNat ++ ds
  else
    let x := kk - 1
    let mantissa := match ds.toList with
      | [] => ds
      | [_] => ds
      | d :: rest => String.ofList (d :: '.' :: rest)
    let sign := if x < 0 then "-" else if l.plusExponent then "+" else ""
    mantissa ++ "e" ++ sign ++ digits x.natAbs

def Layout.finite (l : Layout) (f : Float.Format) (neg : Bool) (m : Nat) (q : Int) : String :=
  let sign := if neg then "-" else ""
  if m = 0 then sign ++ (if l.wholeMark then "0.0" else "0")
  else
    let (c, k) := shortest f m q
    sign ++ l.render c k

end Fiff.Decimal

namespace Fiff

open Fiff.Decimal

def Binary32.display (x : Binary32) : String :=
  match x.classify with
  | .nan => "NaN"
  | .infinite neg => if neg then "-inf" else "inf"
  | .finite neg m q => positional.finite Float.binary32 neg m q

def Binary32.interchange? (x : Binary32) : Option String :=
  match x.classify with
  | .finite neg m q => some (interchange32.finite Float.binary32 neg m q)
  | _ => none

def Binary64.display (x : Binary64) : String :=
  match x.classify with
  | .nan => "NaN"
  | .infinite neg => if neg then "-inf" else "inf"
  | .finite neg m q => positional.finite Float.binary64 neg m q

def Binary64.interchange? (x : Binary64) : Option String :=
  match x.classify with
  | .finite neg m q => some (interchange64.finite Float.binary64 neg m q)
  | _ => none

end Fiff
