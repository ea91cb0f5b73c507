/-!
# Similar names

A mistyped command or option is met with the names that are similar to it. Similarity is the
Jaro similarity: two characters match when they are equal and no further apart than half the
longer name less one; with `m` matches, `t` half the number of matched characters that stand in
a different order, and lengths `a` and `b`, it is `(m/a + m/b + (m - t)/m) / 3`. A name is
similar when its similarity exceeds `0.7`. The similarity is kept as an exact fraction.
-/

set_option autoImplicit false

namespace Fiff.Cli

def jaroCounts (a b : List Char) : Nat × Nat := Id.run do
  let reach := (max a.length b.length / 2) - 1
  let bs := b.toArray
  let mut taken : Array Bool := Array.replicate b.length false
  let mut matchedA : Array Char := #[]
  for (c, i) in a.zipIdx do
    let lo := i - reach
    let hi := min b.length (i + reach + 1)
    let mut found := false
    for j in [lo:hi] do
      if !found && bs[j]? = some c && taken[j]? = some false then
        taken := taken.set! j true
        found := true
    if found then matchedA := matchedA.push c
  let matchedB := (bs.toList.zip taken.toList).filterMap fun (c, t) => if t then some c else none
  let swaps := ((matchedA.toList.zip matchedB).filter fun (x, y) => x != y).length
  (matchedA.size, swaps / 2)

def jaro (a b : String) : Nat × Nat :=
  let la := a.length
  let lb := b.length
  if la = 0 ∧ lb = 0 then (1, 1)
  else if la = 0 ∨ lb = 0 then (0, 1)
  else
    let (m, t) := jaroCounts a.toList b.toList
    if m = 0 then (0, 1)
    else (m * m * lb + m * m * la + (m - t) * la * lb, 3 * la * lb * m)

def fractionLe (x y : Nat × Nat) : Bool := x.1 * y.2 ≤ y.1 * x.2

def similarNames (text : String) (names : List String) : List String :=
  let scored := names.filterMap fun n =>
    let s := jaro text n
    if 7 * s.2 < 10 * s.1 then some (s, n) else none
  (scored.mergeSort fun x y => fractionLe x.1 y.1).map (·.2)

def mostSimilar (text : String) (names : List String) : Option String :=
  (similarNames text names).getLast?

end Fiff.Cli
