import Fiff.Float.Binary
import Fiff.Decimal.Round

/-!
# Six significant digits

The general notation of a double-precision value: rounded to six significant digits, written
positionally when the decimal exponent `X` of the rounded value lies in `-4 ≤ X < 6` and with an
exponent otherwise; trailing zeros and then a bare point are removed, and an exponent has a sign
and at least two digits. Rounding is on the exact binary value, to nearest, ties to even.
-/

set_option autoImplicit false

namespace Fiff.Decimal

def exponentText (x : Int) : String :=
  let ds := digits x.natAbs
  (if x < 0 then "-" else "+") ++ (if ds.length < 2 then "0" ++ ds else ds)

def generalPositive (n d : Nat) : String :=
  let e := floorLog10 n d
  let c := roundAt n d (e - 5)
  let (c, x) := if c = Nat.pow 10 6 then (Nat.pow 10 5, e + 1) else (c, e)
  if -4 ≤ x ∧ x < 6 then
    let places := (5 - x).toNat
    trimZeros (fixed (roundAt n d (-(places : Int))) places)
  else
    trimZeros (fixed c 5) ++ "e" ++ exponentText x

def general (v : Binary64) : String :=
  match v.classify with
  | .nan => "NaN"
  | .infinite neg => if neg then "-inf" else "inf"
  | .finite neg m q =>
    if m = 0 then "0" else
    let (n, d) := Float.Format.exactQuotient m q
    (if neg then "-" else "") ++ generalPositive n d

end Fiff.Decimal
