/-!
# Binary interchange formats

A binary format stores a sign, a biased exponent and a fraction. This module reads a bit pattern
as an exact value `±m · 2^q` (or an infinity, or not-a-number) and rounds an exact non-negative
quotient `n / d` to the nearest pattern, a tie going to the even significand; a quotient beyond
the largest finite value rounds to infinity. Everything is `Nat` and `Int` arithmetic, so the
rounding is exact and can be reasoned about.
-/

set_option autoImplicit false

namespace Fiff.Float

/-- A binary interchange format: significand bits with the hidden bit, and exponent bits. -/
structure Format where
  precision : Nat
  exponentBits : Nat

def binary32 : Format := ⟨24, 8⟩

def binary64 : Format := ⟨53, 11⟩

/-- What a bit pattern stands for: a value `±m · 2^q`, an infinity, or not-a-number. -/
inductive Decoded where
  | nan
  | infinite (neg : Bool)
  | finite (neg : Bool) (m : Nat) (q : Int)

namespace Format

variable (f : Format)

def fractionBits : Nat := f.precision - 1

def width : Nat := f.exponentBits + f.precision

def bias : Nat := Nat.pow 2 (f.exponentBits - 1) - 1

def topExponent : Nat := Nat.pow 2 f.exponentBits - 1

def minQuantum : Int := 1 - (f.bias : Int) - f.fractionBits

def signBit : Nat := Nat.pow 2 (f.width - 1)

def infinityBits : Nat := f.topExponent * Nat.pow 2 f.fractionBits

def quietNaNBits : Nat := f.infinityBits + Nat.pow 2 (f.fractionBits - 1)

def classify (bits : Nat) : Decoded :=
  let neg := decide (f.signBit ≤ bits % Nat.pow 2 f.width)
  let e := bits / Nat.pow 2 f.fractionBits % Nat.pow 2 f.exponentBits
  let frac := bits % Nat.pow 2 f.fractionBits
  if e = f.topExponent then
    if frac = 0 then .infinite neg else .nan
  else if e = 0 then
    .finite neg frac f.minQuantum
  else
    .finite neg (frac + Nat.pow 2 f.fractionBits) (e + f.minQuantum - 1)

def isNaN (bits : Nat) : Bool :=
  match f.classify bits with
  | .nan => true
  | _ => false

def isNegative (bits : Nat) : Bool :=
  decide (f.signBit ≤ bits % Nat.pow 2 f.width)

end Format

def divRoundEven (a b : Nat) : Nat :=
  let q := a / b
  let r := a % b
  if 2 * r < b then q
  else if b < 2 * r then q + 1
  else if q % 2 = 0 then q
  else q + 1

def scaleDown (n d : Nat) (q : Int) : Nat × Nat :=
  if 0 ≤ q then (n, d * Nat.pow 2 q.toNat) else (n * Nat.pow 2 (-q).toNat, d)

def floorLog2 (n d : Nat) : Int :=
  let e : Int := (Nat.log2 n : Int) - Nat.log2 d
  let (a, b) := scaleDown n d e
  if a < b then e - 1 else e

namespace Format

variable (f : Format)

/-- The pattern, sign bit clear, nearest to `n / d` (with `d > 0`); ties go to the even
significand and a quotient beyond the largest finite value gives infinity. -/
def roundQuotient (n d : Nat) : Nat :=
  if n = 0 then 0 else
  let q0 := max f.minQuantum (floorLog2 n d - f.fractionBits)
  let (a, b) := scaleDown n d q0
  let m0 := divRoundEven a b
  let (m, q) := if m0 = Nat.pow 2 f.precision then (Nat.pow 2 f.fractionBits, q0 + 1) else (m0, q0)
  if m < Nat.pow 2 f.fractionBits then m
  else
    let e := (q - f.minQuantum + 1).toNat
    if f.topExponent ≤ e then f.infinityBits
    else e * Nat.pow 2 f.fractionBits + (m - Nat.pow 2 f.fractionBits)

def ofQuotient (neg : Bool) (n d : Nat) : Nat :=
  (if neg then f.signBit else 0) + f.roundQuotient n d

def ofInt (i : Int) : Nat :=
  f.ofQuotient (decide (i < 0)) i.natAbs 1

/-- The pattern nearest to `±digits · 10^exp`. Far beyond the range of double precision the
answer is known without the exact value: at `10^309` and above it is infinite, below `10^-324`
it is zero. -/
def ofDecimal (neg : Bool) (digits : Nat) (exp : Int) : Nat :=
  let size : Int := exp + (Nat.toDigits 10 digits).length
  if digits = 0 then f.ofQuotient neg 0 1
  else if 310 ≤ size then (if neg then f.signBit else 0) + f.infinityBits
  else if size ≤ -325 then f.ofQuotient neg 0 1
  else if 0 ≤ exp then f.ofQuotient neg (digits * Nat.pow 10 exp.toNat) 1
  else f.ofQuotient neg digits (Nat.pow 10 (-exp).toNat)

def exactQuotient (m : Nat) (q : Int) : Nat × Nat :=
  if 0 ≤ q then (m * Nat.pow 2 q.toNat, 1) else (m, Nat.pow 2 (-q).toNat)

end Format

/-- Rounds a pattern of `src` to the nearest pattern of `dst`. A not-a-number keeps its sign
and the high bits of its payload, and becomes quiet. -/
def convert (src dst : Format) (bits : Nat) : Nat :=
  let sign := if src.isNegative bits then dst.signBit else 0
  match src.classify bits with
  | .nan =>
    let payload := bits % Nat.pow 2 src.fractionBits
    let kept := payload / Nat.pow 2 (src.fractionBits - dst.fractionBits)
    sign + dst.infinityBits + (kept ||| Nat.pow 2 (dst.fractionBits - 1))
  | .infinite _ => sign + dst.infinityBits
  | .finite neg m q =>
    let (n, d) := Format.exactQuotient m q
    dst.ofQuotient neg n d

end Fiff.Float
