import Fiff.Float.Format
import Fiff.Decimal.Round

/-!
# Shortest decimal digits

For a positive value `m · 2^q` of a binary format, the rounding interval holds the reals that
round to it: half a step on each side (a quarter step below the first value of a binade), its
ends included when `m` is even. On the grid of `10^t` only the value's two neighbours can lie in
that interval, so the grids are scanned from one significant digit upwards and the first grid
with a neighbour inside wins; of two, the nearer one is taken, an exact tie going to the even
one. The result is a significand without trailing zeros and its decimal exponent.
-/

set_option autoImplicit false

namespace Fiff.Decimal

open Fiff.Float

/-- The rounding interval of `m · 2^q` as numerators `4m - δ`, `4m`, `4m + 2` over the common
scale `2^(q-2)`, with `δ` one or two. -/
def interval (f : Format) (m : Nat) (q : Int) : Nat × Nat × Nat :=
  let lowerGap := if m = Nat.pow 2 f.fractionBits ∧ f.minQuantum < q then 1 else 2
  (4 * m - lowerGap, 4 * m, 4 * m + 2)

def compareScaled (a : Nat) (s : Int) (c : Nat) (t : Int) : Ordering :=
  let lhs := a * Nat.pow 2 s.toNat * Nat.pow 10 (-t).toNat
  let rhs := c * Nat.pow 10 t.toNat * Nat.pow 2 (-s).toNat
  compare lhs rhs

def inInterval (lo hi : Nat) (s : Int) (closed : Bool) (c : Nat) (t : Int) : Bool :=
  let below := compareScaled lo s c t
  let above := compareScaled hi s c t
  (below == .lt || (closed && below == .eq)) && (above == .gt || (closed && above == .eq))

def normalize (c : Nat) (t : Int) : Nat → Nat × Int
  | 0 => (c, t)
  | fuel + 1 => if c ≠ 0 ∧ c % 10 = 0 then normalize (c / 10) (t + 1) fuel else (c, t)

def onGrid (f : Format) (m : Nat) (q : Int) (t : Int) : Option Nat :=
  let (lo, v, hi) := interval f m q
  let s := q - 2
  let closed := m % 2 == 0
  let (n, d) := Format.exactQuotient m q
  let down := floorAt n d t
  let up := down + 1
  let okDown := down != 0 && inInterval lo hi s closed down t
  let okUp := inInterval lo hi s closed up t
  if okDown && okUp then
    match compareScaled (2 * v) s (down + up) t with
    | .lt => some down
    | .gt => some up
    | .eq => if down % 2 = 0 then some down else some up
  else if okDown then some down
  else if okUp then some up
  else none

def shortest (f : Format) (m : Nat) (q : Int) : Nat × Int :=
  let (n, d) := Format.exactQuotient m q
  let e := floorLog10 n d
  let found := (List.range 20).findSome? fun (k : Nat) =>
    let t := e - (k : Int)
    (onGrid f m q t).map fun c => (c, t)
  match found with
  | some (c, t) => normalize c t 20
  | none => normalize (roundAt n d (e - 19)) (e - 19) 20

end Fiff.Decimal
