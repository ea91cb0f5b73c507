import Fiff.Proofs.DecimalRounding
import Mathlib

/-!
# Rounding a quotient depends on its value alone

`Format.roundQuotient f n d` finds the binary exponent of `n / d` by comparing bit lengths and
then rounds a scaled quotient with natural division. Over the rationals the exponent is
`Int.log 2 (n / d)` and the rounding is that of the scaled value, so scaling `n` and `d` by a
common factor changes nothing (`roundQuotient_mul`). A decimal read as `c · 10^(k+1)` over ten
therefore rounds as `c · 10^k` does (`ofDecimal_shift`).
-/

set_option autoImplicit false

namespace Fiff.Float

open Fiff.Decimal

theorem scaleDown_spec (n d : ℕ) (hd : 0 < d) (q : ℤ) :
    0 < (scaleDown n d q).2 ∧ ((scaleDown n d q).1 : ℚ) / (scaleDown n d q).2 = n / d / 2 ^ q := by
  have hdq : (0 : ℚ) < d := by exact_mod_cast hd
  unfold scaleDown
  simp only [Nat.pow_eq]
  split_ifs with hq
  · refine ⟨by positivity, ?_⟩
    rw [zpow_of_nonneg 2 hq]
    push_cast
    rw [div_div]
  · refine ⟨hd, ?_⟩
    rw [zpow_of_neg 2 hq]
    push_cast
    rw [div_inv_eq_mul, div_mul_eq_mul_div]

theorem scaleDown_mul (n d t : ℕ) (q : ℤ) :
    scaleDown (n * t) (d * t) q = ((scaleDown n d q).1 * t, (scaleDown n d q).2 * t) := by
  unfold scaleDown
  split_ifs
  · rw [Nat.mul_right_comm d t]
  · rw [Nat.mul_right_comm n t]

theorem floorLog2_eq (n d : ℕ) (hn : 0 < n) (hd : 0 < d) :
    floorLog2 n d = Int.log 2 ((n : ℚ) / d) := by
  obtain ⟨hLow, hHigh⟩ := ratio_bracket (by norm_num : 1 < 2) n d hn hd
  have hE : (Nat.log2 n : ℤ) - Nat.log2 d = (Nat.log 2 n : ℤ) - Nat.log 2 d := by
    rw [Nat.log2_eq_log_two, Nat.log2_eq_log_two]
  obtain ⟨hPos, hScale⟩ := scaleDown_spec n d hd ((Nat.log 2 n : ℤ) - Nat.log 2 d)
  unfold floorLog2
  dsimp only
  rw [hE]
  generalize scaleDown n d ((Nat.log 2 n : ℤ) - Nat.log 2 d) = S at hPos hScale
  obtain ⟨a, b⟩ := S
  dsimp only at hPos hScale ⊢
  have hCmp : a < b ↔ (n : ℚ) / d < (2 : ℕ) ^ ((Nat.log 2 n : ℤ) - Nat.log 2 d) := by
    have hPow : (0 : ℚ) < (2 : ℕ) ^ ((Nat.log 2 n : ℤ) - Nat.log 2 d) := by positivity
    rw [← div_lt_one hPow, Nat.cast_ofNat, ← hScale, div_lt_one (by exact_mod_cast hPos)]
    exact_mod_cast Iff.rfl
  split_ifs with hBelow
  · exact (log_eq_of_bracket (by norm_num) hLow.le
      (by rw [sub_add_cancel]; exact hCmp.mp hBelow)).symm
  · exact (log_eq_of_bracket (by norm_num) (not_lt.mp (hCmp.not.mp hBelow)) hHigh).symm

theorem floorLog2_mul {n d t : ℕ} (hn : 0 < n) (hd : 0 < d) (ht : 0 < t) :
    floorLog2 (n * t) (d * t) = floorLog2 n d := by
  rw [floorLog2_eq _ _ (Nat.mul_pos hn ht) (Nat.mul_pos hd ht), floorLog2_eq n d hn hd]
  push_cast
  rw [mul_div_mul_right _ _ (by positivity)]

theorem divRoundEven_mul (a : ℕ) {b t : ℕ} (hb : 0 < b) (ht : 0 < t) :
    divRoundEven (a * t) (b * t) = divRoundEven a b := by
  have h : (divRoundEven (a * t) (b * t) : ℤ) = divRoundEven a b := by
    rw [divRoundEven_eq _ _ (Nat.mul_pos hb ht), divRoundEven_eq a b hb]
    push_cast
    rw [mul_div_mul_right _ _ (by positivity)]
  exact_mod_cast h

/-- Rounding a quotient sees only its value: a common factor of its parts changes nothing. -/
theorem Format.roundQuotient_mul (f : Format) (n : ℕ) {d t : ℕ} (hd : 0 < d) (ht : 0 < t) :
    f.roundQuotient (n * t) (d * t) = f.roundQuotient n d := by
  by_cases hn : n = 0
  · simp [Format.roundQuotient, hn]
  · unfold Format.roundQuotient
    rw [if_neg (Nat.mul_ne_zero hn ht.ne'), if_neg hn,
      floorLog2_mul (Nat.pos_of_ne_zero hn) hd ht]
    dsimp only
    rw [scaleDown_mul]
    have hPos := (scaleDown_spec n d hd (max f.minQuantum (floorLog2 n d - f.fractionBits))).1
    generalize scaleDown n d (max f.minQuantum (floorLog2 n d - f.fractionBits)) = S at hPos ⊢
    obtain ⟨a, b⟩ := S
    dsimp only at hPos ⊢
    rw [divRoundEven_mul a hPos ht]

theorem toDigits_mul_pow_ten {c : ℕ} (hc : c ≠ 0) (j : ℕ) :
    Nat.toDigits 10 (c * 10 ^ j) = Nat.toDigits 10 c ++ List.replicate j '0' := by
  induction j with
  | zero => simp
  | succ j ih =>
    have hStep := Nat.toDigits_append_toDigits (b := 10) (n := c * 10 ^ j) (d := 0) (by norm_num)
      (Nat.pos_of_ne_zero (Nat.mul_ne_zero hc (by positivity))) (by norm_num)
    rw [Nat.toDigits_zero, Nat.add_zero, ih] at hStep
    rw [pow_succ, ← Nat.mul_assoc, Nat.mul_comm _ 10, ← hStep, List.replicate_succ',
      List.append_assoc]

/-- The decimal `c · 10^(k+1)` over ten rounds as `c · 10^k` does. -/
theorem Format.ofDecimal_shift (f : Format) (neg : Bool) (c : ℕ) {k : ℤ} (hk : 0 ≤ k) :
    f.ofDecimal neg (c * 10 ^ (k.toNat + 1)) (-1) = f.ofDecimal neg c k := by
  by_cases hc : c = 0
  · simp [Format.ofDecimal, hc]
  · have hSize : (-1 : ℤ) + (Nat.toDigits 10 (c * 10 ^ (k.toNat + 1))).length =
        k + (Nat.toDigits 10 c).length := by
      rw [toDigits_mul_pow_ten hc, List.length_append, List.length_replicate]
      omega
    have hValue : f.ofQuotient neg (c * 10 ^ (k.toNat + 1)) (Nat.pow 10 (- -1 : ℤ).toNat) =
        f.ofQuotient neg (c * Nat.pow 10 k.toNat) 1 := by
      have hDigits : c * 10 ^ (k.toNat + 1) = c * Nat.pow 10 k.toNat * 10 := by
        rw [Nat.pow_eq, pow_succ, Nat.mul_assoc]
      rw [Format.ofQuotient, Format.ofQuotient, hDigits, show Nat.pow 10 (- -1 : ℤ).toNat = 1 * 10
        from rfl, f.roundQuotient_mul _ Nat.one_pos (by norm_num)]
    unfold Format.ofDecimal
    simp only [hSize, Nat.mul_ne_zero hc (by positivity : 10 ^ (k.toNat + 1) ≠ 0), hc,
      if_false, hk, if_true]
    rw [if_neg (by decide : ¬ (0 : ℤ) ≤ -1), hValue]

end Fiff.Float
