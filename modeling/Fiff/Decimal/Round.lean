import Fiff.Float.Format

/-!
# Exact decimal rounding

Positive rationals `n / d` placed on decimal grids: `floorLog10` gives the decimal exponent of
the leading digit and `roundAt n d t` the nearest multiple of `10^t`, in units of `10^t`, a tie
going to the even multiple. All arithmetic is exact.
-/

set_option autoImplicit false

namespace Fiff.Decimal

def digits (n : Nat) : String := String.ofList (Nat.toDigits 10 n)

def scale (n : Nat) (t : Int) : Nat × Nat :=
  if 0 ≤ t then (n * Nat.pow 10 t.toNat, 1) else (n, Nat.pow 10 (-t).toNat)

/-- The exponent `e` with `10^e ≤ n / d < 10^(e+1)`, for positive `n` and `d`. -/
def floorLog10 (n d : Nat) : Int :=
  let e : Int := ((digits n).length : Int) - (digits d).length
  let (a, b) := scale d e
  if n * b < a then e - 1 else e

def roundAt (n d : Nat) (t : Int) : Nat :=
  if 0 ≤ t then Float.divRoundEven n (d * Nat.pow 10 t.toNat)
  else Float.divRoundEven (n * Nat.pow 10 (-t).toNat) d

def floorAt (n d : Nat) (t : Int) : Nat :=
  if 0 ≤ t then n / (d * Nat.pow 10 t.toNat) else n * Nat.pow 10 (-t).toNat / d

def fixed (c places : Nat) : String :=
  let ds := digits c
  let ds := String.ofList (List.replicate (places + 1 - ds.length) '0') ++ ds
  if places = 0 then ds
  else String.ofList (ds.toList.take (ds.length - places)) ++ "." ++
    String.ofList (ds.toList.drop (ds.length - places))

def trimZeros (s : String) : String :=
  let cs := (s.toList.reverse.dropWhile (· == '0'))
  let cs := match cs with
    | '.' :: rest => rest
    | _ => cs
  String.ofList cs.reverse

end Fiff.Decimal
