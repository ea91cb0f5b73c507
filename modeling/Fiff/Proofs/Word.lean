import Fiff.Word
import Mathlib.Tactic.Ring
import Mathlib.Tactic.Positivity
import Mathlib.Tactic.Linarith

/-!
# Big-endian words read back

Bytes written by `Word.bytes` spell their number modulo the width, and a list of bytes is the
writing of the number it spells, so on lists of a fixed length `Word.value` and `Word.bytes`
are inverse. Signed words, unsigned words and runs of unsigned words inherit that.
-/

set_option autoImplicit false

namespace Fiff.Word

theorem foldl_value (bs : List UInt8) (acc : Nat) :
    bs.foldl (fun acc b => acc * 256 + b.toNat) acc = acc * 256 ^ bs.length + value bs := by
  induction bs generalizing acc with
  | nil => simp [value]
  | cons b bs ih =>
    have hValue : value (b :: bs) = (0 * 256 + b.toNat) * 256 ^ bs.length + value bs := by
      rw [value, List.foldl_cons, ih]
    rw [List.foldl_cons, ih, hValue, List.length_cons, pow_succ]
    ring

@[simp] theorem value_nil : value [] = 0 := rfl

theorem value_cons (b : UInt8) (bs : List UInt8) :
    value (b :: bs) = b.toNat * 256 ^ bs.length + value bs := by
  rw [value, List.foldl_cons, foldl_value]
  simp

theorem value_lt (bs : List UInt8) : value bs < 256 ^ bs.length := by
  induction bs with
  | nil => simp
  | cons b bs ih =>
    rw [value_cons, List.length_cons, pow_succ]
    have hb : b.toNat < 256 := b.toNat_lt
    nlinarith

theorem value_bytes (w n : Nat) : value (bytes w n) = n % 256 ^ w := by
  induction w with
  | zero => simp [bytes, Nat.mod_one]
  | succ w ih =>
    rw [bytes, value_cons, ih, length_bytes]
    have hDigit : (n / Nat.pow 256 w % 256).toUInt8.toNat = n / 256 ^ w % 256 := by
      simp [Nat.toUInt8]
    rw [hDigit, pow_succ, Nat.mod_mul]
    ring

theorem value_injective {as bs : List UInt8} (hLength : as.length = bs.length)
    (hValue : value as = value bs) : as = bs := by
  induction as generalizing bs with
  | nil => cases bs with
    | nil => rfl
    | cons b bs => simp at hLength
  | cons a as ih =>
    cases bs with
    | nil => simp at hLength
    | cons b bs =>
      have hLength' : as.length = bs.length := by simpa using hLength
      rw [value_cons, value_cons, hLength'] at hValue
      have hA := value_lt as
      have hB := value_lt bs
      rw [hLength'] at hA
      have hHigh : a.toNat = b.toNat := by
        have h : (a.toNat * 256 ^ bs.length + value as) / 256 ^ bs.length =
            (b.toNat * 256 ^ bs.length + value bs) / 256 ^ bs.length := by rw [hValue]
        rwa [Nat.add_comm, Nat.add_mul_div_right _ _ (by positivity), Nat.div_eq_of_lt hA,
          Nat.add_comm (b.toNat * _), Nat.add_mul_div_right _ _ (by positivity),
          Nat.div_eq_of_lt hB, Nat.zero_add, Nat.zero_add] at h
      have hLow : value as = value bs := by
        rw [hHigh] at hValue
        omega
      rw [UInt8.toNat_inj.mp hHigh, ih hLength' hLow]

theorem bytes_value (bs : List UInt8) : bytes bs.length (value bs) = bs :=
  value_injective (length_bytes _ _) (by rw [value_bytes, Nat.mod_eq_of_lt (value_lt bs)])

/-! ## Signed and unsigned words -/

@[simp] theorem toInt32_ofInt32 (x : Int32) : toInt32 (ofInt32 x) = x := by
  simp [toInt32, ofInt32, value_bytes]

theorem ofInt32_toInt32 {bs : List UInt8} (hLength : bs.length = 4) : ofInt32 (toInt32 bs) = bs := by
  have hLt : value bs < 2 ^ 32 := by simpa [hLength] using value_lt bs
  have hBack := bytes_value bs
  rw [hLength] at hBack
  have hNat : (value bs).toUInt32.toNat = value bs := by
    simp only [Nat.toUInt32, UInt32.toNat_ofNat']
    exact Nat.mod_eq_of_lt hLt
  rw [ofInt32, toInt32, UInt32.toUInt32_toInt32, hNat, hBack]

theorem toInt_toInt32_bytes {n : Nat} (hn : n < 2 ^ 31) : (toInt32 (bytes 4 n)).toInt = n := by
  have hMod : n % 256 ^ 4 = n := Nat.mod_eq_of_lt (by omega)
  have hWord : toInt32 (bytes 4 n) = Int32.ofNat n := by
    rw [toInt32, value_bytes, hMod]
    rfl
  rw [hWord, Int32.toInt_ofNat_of_lt hn]

theorem ofInt32_of_nonneg {x : Int32} (hx : 0 ≤ x) : ofInt32 x = bytes 4 x.toInt.toNat := by
  rw [ofInt32, Int32.toNat_toUInt32_of_le hx]
  rfl

@[simp] theorem value_ofUInt32 (x : UInt32) : value (ofUInt32 x) = x.toNat := by
  simp [ofUInt32, value_bytes]

@[simp] theorem length_ofUInt32s (xs : List UInt32) : (ofUInt32s xs).length = 4 * xs.length := by
  induction xs with
  | nil => rfl
  | cons x xs ih =>
    simp only [ofUInt32s, List.flatMap_cons, List.length_append] at ih ⊢
    rw [ih]
    simp [ofUInt32]
    ring

@[simp] theorem toUInt32s_ofUInt32s (xs : List UInt32) : toUInt32s (ofUInt32s xs) = xs := by
  induction xs with
  | nil => rfl
  | cons x xs ih =>
    have hFour : ofUInt32 x = bytes 4 x.toNat := rfl
    have hWord : (value (ofUInt32 x)).toUInt32 = x := by simp
    simp only [ofUInt32s, List.flatMap_cons] at ih ⊢
    rw [hFour] at hWord ⊢
    simp only [bytes, List.cons_append, List.nil_append, toUInt32s] at hWord ⊢
    rw [hWord, ih]

theorem ofUInt32s_toUInt32s {bs : List UInt8} (hLength : bs.length % 4 = 0) :
    ofUInt32s (toUInt32s bs) = bs := by
  fun_induction toUInt32s bs with
  | case1 a b c d rest ih =>
    have hRest : rest.length % 4 = 0 := by simp only [List.length_cons] at hLength; omega
    have hWord : ofUInt32 (value [a, b, c, d]).toUInt32 = [a, b, c, d] := by
      have hLt : value [a, b, c, d] < 256 ^ 4 := value_lt [a, b, c, d]
      have hNat : (value [a, b, c, d]).toUInt32.toNat = value [a, b, c, d] := by
        simp only [Nat.toUInt32, UInt32.toNat_ofNat']
        exact Nat.mod_eq_of_lt hLt
      rw [ofUInt32, hNat]
      exact bytes_value [a, b, c, d]
    simp only [ofUInt32s, List.flatMap_cons] at ih ⊢
    rw [hWord, ih hRest]
    rfl
  | case2 bs hShort =>
    have hShort' : bs.length < 4 := by
      match bs, hShort with
      | [], _ | [_], _ | [_, _], _ | [_, _, _], _ => simp
      | a :: b :: c :: d :: rest, h => exact absurd rfl (h a b c d rest)
    rw [List.eq_nil_of_length_eq_zero (by omega : bs.length = 0)]
    rfl

end Fiff.Word
