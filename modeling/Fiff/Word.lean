/-!
# Big-endian words

A number is stored in a fixed count of bytes, most significant first; a signed 32-bit word is
stored as its two's-complement pattern. `bytes w n` writes the `w` low-order bytes of `n` and
`value` reads a byte list back as a number, so `value (bytes w n) = n % 256 ^ w`.
-/

set_option autoImplicit false

namespace Fiff.Word

def bytes : Nat → Nat → List UInt8
  | 0, _ => []
  | w + 1, n => (n / Nat.pow 256 w % 256).toUInt8 :: bytes w n

/-- The number that a list of bytes spells, most significant first. -/
def value (bs : List UInt8) : Nat :=
  bs.foldl (fun acc b => acc * 256 + b.toNat) 0

@[simp] theorem length_bytes (w n : Nat) : (bytes w n).length = w := by
  induction w with
  | zero => rfl
  | succ w ih => simp [bytes, ih]

def ofInt32 (x : Int32) : List UInt8 :=
  bytes 4 x.toUInt32.toNat

def ofUInt32 (x : UInt32) : List UInt8 :=
  bytes 4 x.toNat

def toInt32 (bs : List UInt8) : Int32 :=
  (value bs).toUInt32.toInt32

def readInt32? : List UInt8 → Option (Int32 × List UInt8)
  | a :: b :: c :: d :: rest => some (toInt32 [a, b, c, d], rest)
  | _ => none

@[simp] theorem length_ofInt32 (x : Int32) : (ofInt32 x).length = 4 := by
  simp [ofInt32]

def ofUInt32s (xs : List UInt32) : List UInt8 :=
  xs.flatMap ofUInt32

def toUInt32s : List UInt8 → List UInt32
  | a :: b :: c :: d :: rest => (value [a, b, c, d]).toUInt32 :: toUInt32s rest
  | _ => []

end Fiff.Word
