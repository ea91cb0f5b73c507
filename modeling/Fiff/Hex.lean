/-!
# Hexadecimal byte text

Bytes written as two lower-case hexadecimal digits each; reading ignores blanks between digits.
-/

set_option autoImplicit false

namespace Fiff.Hex

def digit (n : Nat) : Char :=
  if n < 10 then Char.ofNat (48 + n) else Char.ofNat (87 + n)

def digitValue? (c : Char) : Option Nat :=
  if '0' ≤ c ∧ c ≤ '9' then some (c.toNat - 48)
  else if 'a' ≤ c ∧ c ≤ 'f' then some (c.toNat - 87)
  else if 'A' ≤ c ∧ c ≤ 'F' then some (c.toNat - 55)
  else none

def encode (bs : List UInt8) : String :=
  String.ofList (bs.flatMap fun b => [digit (b.toNat / 16), digit (b.toNat % 16)])

def decodeDigits : List Char → Option (List UInt8)
  | [] => some []
  | a :: b :: rest => do
    let x ← digitValue? a
    let y ← digitValue? b
    let tail ← decodeDigits rest
    pure ((x * 16 + y).toUInt8 :: tail)
  | [_] => none

def decode? (s : String) : Option (List UInt8) :=
  decodeDigits (s.toList.filter fun c => !c.isWhitespace)

end Fiff.Hex
