import Fiff.Decimal.General
import Mathlib.Data.Int.Log
import Mathlib.Data.Rat.Floor
import Mathlib.Tactic.Linarith
import Mathlib.Tactic.Positivity

/-!
# Decimal rounding on exact values

The decimal printers work on a value as a quotient of naturals `n / d` and round with natural
division: `Float.divRoundEven` looks at the remainder, `roundAt` scales by a power of ten first,
and `floorLog10` compares digit counts. Over the rationals these are the nearest integer with
ties to even (`roundHalfEven`) of the exact quotient and `Int.log 10` of it; this module proves
each of them equal to that reading, so later proofs work with the exact value alone.
-/

set_option autoImplicit false

namespace Fiff.Decimal

/-- The integer nearest to `t`, a tie going to the even one. -/
def roundHalfEven (t : ℚ) : ℤ :=
  if 1 < 2 * (t - ⌊t⌋) ∨ (2 * (t - ⌊t⌋) = 1 ∧ ⌊t⌋ % 2 = 1) then ⌊t⌋ + 1 else ⌊t⌋

theorem abs_sub_roundHalfEven_le (t : ℚ) : |t - roundHalfEven t| ≤ 1 / 2 := by
  have hLow := Int.floor_le t
  have hHigh := Int.lt_floor_add_one t
  rw [abs_le]
  unfold roundHalfEven
  split_ifs with hUp
  · push_cast
    rcases hUp with hUp | ⟨hTie, -⟩ <;> constructor <;> linarith
  · simp only [not_or, not_lt] at hUp
    constructor <;> linarith [hUp.1]

theorem roundHalfEven_eq_of_near {t : ℚ} {k : ℤ} (h : |t - k| < 1 / 2) :
    roundHalfEven t = k := by
  have hR := abs_le.mp (abs_sub_roundHalfEven_le t)
  have hk := abs_lt.mp h
  have hUpper : (roundHalfEven t : ℚ) < k + 1 := by linarith
  have hLower : (k : ℚ) < roundHalfEven t + 1 := by linarith
  have h1 : roundHalfEven t < k + 1 := by exact_mod_cast hUpper
  have h2 : k < roundHalfEven t + 1 := by exact_mod_cast hLower
  omega

theorem roundHalfEven_eq_of_tie {t : ℚ} {k : ℤ} (h : |t - k| = 1 / 2) (hk : k % 2 = 0) :
    roundHalfEven t = k := by
  unfold roundHalfEven
  rcases (abs_eq (by norm_num : (0 : ℚ) ≤ 1 / 2)).mp h with hAbove | hBelow
  · have hFloor : ⌊t⌋ = k := Int.floor_eq_iff.mpr ⟨by linarith, by linarith⟩
    rw [hFloor, if_neg]
    rintro (hUp | ⟨-, hOdd⟩)
    · linarith
    · omega
  · have hFloor : ⌊t⌋ = k - 1 := Int.floor_eq_iff.mpr ⟨by push_cast; linarith, by push_cast; linarith⟩
    rw [hFloor, if_pos (Or.inr ⟨by push_cast; linarith, by omega⟩)]
    omega

theorem roundHalfEven_intCast (k : ℤ) : roundHalfEven k = k :=
  roundHalfEven_eq_of_near (by simp)

theorem le_roundHalfEven {t : ℚ} {k : ℤ} (h : (k : ℚ) ≤ t) : k ≤ roundHalfEven t := by
  have hR := abs_le.mp (abs_sub_roundHalfEven_le t)
  have hLower : (k : ℚ) < roundHalfEven t + 1 := by linarith
  have : k < roundHalfEven t + 1 := by exact_mod_cast hLower
  omega

theorem roundHalfEven_le {t : ℚ} {k : ℤ} (h : t ≤ k) : roundHalfEven t ≤ k := by
  have hR := abs_le.mp (abs_sub_roundHalfEven_le t)
  have hUpper : (roundHalfEven t : ℚ) < k + 1 := by linarith
  have : roundHalfEven t < k + 1 := by exact_mod_cast hUpper
  omega

theorem divRoundEven_eq (a b : ℕ) (hb : 0 < b) :
    (Float.divRoundEven a b : ℤ) = roundHalfEven ((a : ℚ) / b) := by
  have hbq : (0 : ℚ) < b := by exact_mod_cast hb
  have hRem : a % b < b := Nat.mod_lt a hb
  have hSplit : (a : ℚ) / b = ((a / b : ℕ) : ℚ) + ((a % b : ℕ) : ℚ) / b := by
    have hNat : (a : ℚ) = ((a / b : ℕ) : ℚ) * b + ((a % b : ℕ) : ℚ) := by
      exact_mod_cast (Nat.div_add_mod' a b).symm
    rw [hNat, add_div, mul_div_assoc, div_self hbq.ne', mul_one]
  unfold Float.divRoundEven
  dsimp only
  set q := a / b
  set r := a % b
  have hHalfShare : 2 * r = b → (r : ℚ) / b = 1 / 2 := fun hTwice => by
    have : (2 * r : ℚ) = b := by exact_mod_cast hTwice
    rw [div_eq_iff hbq.ne']
    linarith
  split_ifs with hLow hHigh hEven
  · have hShare : (r : ℚ) / b < 1 / 2 := by
      have : (2 * r : ℚ) < b := by exact_mod_cast hLow
      rw [div_lt_iff₀ hbq]
      linarith
    symm
    apply roundHalfEven_eq_of_near
    push_cast
    rw [hSplit, add_sub_cancel_left, abs_of_nonneg (by positivity)]
    exact hShare
  · have hHalf : (1 : ℚ) / 2 < r / b := by
      have : (b : ℚ) < 2 * r := by exact_mod_cast hHigh
      rw [lt_div_iff₀ hbq]
      linarith
    have hOne : (r : ℚ) / b < 1 := by
      rw [div_lt_one hbq]
      exact_mod_cast hRem
    symm
    apply roundHalfEven_eq_of_near
    push_cast
    rw [hSplit, abs_lt]
    constructor <;> linarith
  · have hTie := hHalfShare (by omega)
    symm
    apply roundHalfEven_eq_of_tie _ (by omega)
    push_cast
    rw [hSplit, add_sub_cancel_left, hTie, abs_of_pos (by norm_num)]
  · have hTie := hHalfShare (by omega)
    symm
    apply roundHalfEven_eq_of_tie _ (by omega)
    push_cast
    rw [hSplit, hTie, show (q : ℚ) + 1 / 2 - (q + 1) = -(1 / 2) by ring, abs_neg,
      abs_of_pos (by norm_num)]

theorem zpow_of_nonneg (a : ℚ) {t : ℤ} (ht : 0 ≤ t) : a ^ t = a ^ t.toNat := by
  rw [← zpow_natCast, Int.toNat_of_nonneg ht]

theorem zpow_of_neg (a : ℚ) {t : ℤ} (ht : ¬ 0 ≤ t) : a ^ t = (a ^ (-t).toNat)⁻¹ := by
  rw [← zpow_natCast, Int.toNat_of_nonneg (by omega), zpow_neg, inv_inv]

theorem roundAt_eq (n d : ℕ) (hd : 0 < d) (t : ℤ) :
    (roundAt n d t : ℤ) = roundHalfEven ((n : ℚ) / d / 10 ^ t) := by
  unfold roundAt
  simp only [Nat.pow_eq]
  split_ifs with ht
  · rw [divRoundEven_eq _ _ (by positivity), zpow_of_nonneg 10 ht]
    push_cast
    rw [div_div]
  · rw [divRoundEven_eq _ _ hd, zpow_of_neg 10 ht]
    push_cast
    rw [div_inv_eq_mul, div_mul_eq_mul_div]

theorem scale_spec (n : ℕ) (t : ℤ) :
    0 < (scale n t).2 ∧ ((scale n t).1 : ℚ) / (scale n t).2 = n * 10 ^ t := by
  unfold scale
  simp only [Nat.pow_eq]
  split_ifs with ht
  · refine ⟨Nat.one_pos, ?_⟩
    rw [zpow_of_nonneg 10 ht]
    push_cast
    rw [div_one]
  · refine ⟨by positivity, ?_⟩
    rw [zpow_of_neg 10 ht]
    push_cast
    rw [div_eq_mul_inv]

theorem length_toDigits_eq_log (n : ℕ) (hn : 0 < n) :
    (Nat.toDigits 10 n).length = Nat.log 10 n + 1 := by
  apply le_antisymm
  · exact (Nat.length_toDigits_le_iff (by norm_num) (by omega)).mpr
      (Nat.lt_pow_succ_log_self (by norm_num) n)
  · by_contra hShort
    have hPos := Nat.length_toDigits_pos (b := 10) (n := n)
    have hBelow := (Nat.length_toDigits_le_iff (b := 10) (n := n) (by norm_num)
      (show 0 < Nat.log 10 n by omega)).mp (by omega)
    have := Nat.pow_log_le_self 10 hn.ne'
    omega

theorem log_eq_of_bracket {b : ℕ} (hb : 1 < b) {r : ℚ} {t : ℤ} (hLow : (b : ℚ) ^ t ≤ r)
    (hHigh : r < (b : ℚ) ^ (t + 1)) : Int.log b r = t := by
  have hr : 0 < r := lt_of_lt_of_le (zpow_pos (by exact_mod_cast (by omega : 0 < b)) t) hLow
  have h1 := (Int.zpow_le_iff_le_log hb hr).mp hLow
  have h2 := (Int.lt_zpow_iff_log_lt hb hr).mp hHigh
  omega

theorem ratio_bracket {b : ℕ} (hb : 1 < b) (n d : ℕ) (hn : 0 < n) (hd : 0 < d) :
    (b : ℚ) ^ ((Nat.log b n : ℤ) - Nat.log b d - 1) < n / d ∧
      (n : ℚ) / d < (b : ℚ) ^ ((Nat.log b n : ℤ) - Nat.log b d + 1) := by
  have hdq : (0 : ℚ) < d := by exact_mod_cast hd
  have hBase : (0 : ℚ) < b := by exact_mod_cast (by omega : 0 < b)
  have hn1 : (b : ℚ) ^ (Nat.log b n : ℤ) ≤ n := by
    rw [zpow_natCast]
    exact_mod_cast Nat.pow_log_le_self b hn.ne'
  have hn2 : (n : ℚ) < (b : ℚ) ^ ((Nat.log b n : ℤ) + 1) := by
    exact_mod_cast Nat.lt_pow_succ_log_self hb n
  have hd1 : (b : ℚ) ^ (Nat.log b d : ℤ) ≤ d := by
    rw [zpow_natCast]
    exact_mod_cast Nat.pow_log_le_self b hd.ne'
  have hd2 : (d : ℚ) < (b : ℚ) ^ ((Nat.log b d : ℤ) + 1) := by
    exact_mod_cast Nat.lt_pow_succ_log_self hb d
  constructor
  · rw [lt_div_iff₀ hdq]
    calc (b : ℚ) ^ ((Nat.log b n : ℤ) - Nat.log b d - 1) * d
        < (b : ℚ) ^ ((Nat.log b n : ℤ) - Nat.log b d - 1) * (b : ℚ) ^ ((Nat.log b d : ℤ) + 1) :=
          mul_lt_mul_of_pos_left hd2 (zpow_pos hBase _)
      _ = (b : ℚ) ^ (Nat.log b n : ℤ) := by rw [← zpow_add₀ hBase.ne']; ring_nf
      _ ≤ n := hn1
  · rw [div_lt_iff₀ hdq]
    calc (n : ℚ) < (b : ℚ) ^ ((Nat.log b n : ℤ) + 1) := hn2
      _ = (b : ℚ) ^ ((Nat.log b n : ℤ) - Nat.log b d + 1) * (b : ℚ) ^ (Nat.log b d : ℤ) := by
          rw [← zpow_add₀ hBase.ne']; ring_nf
      _ ≤ (b : ℚ) ^ ((Nat.log b n : ℤ) - Nat.log b d + 1) * d :=
          mul_le_mul_of_nonneg_left hd1 (zpow_pos hBase _).le

theorem floorLog10_eq (n d : ℕ) (hn : 0 < n) (hd : 0 < d) :
    floorLog10 n d = Int.log 10 ((n : ℚ) / d) := by
  have hdq : (0 : ℚ) < d := by exact_mod_cast hd
  obtain ⟨hLow, hHigh⟩ := ratio_bracket (by norm_num : 1 < 10) n d hn hd
  obtain ⟨hPos, hScale⟩ := scale_spec d ((Nat.log 10 n : ℤ) - Nat.log 10 d)
  have hE : ((digits n).length : ℤ) - (digits d).length = (Nat.log 10 n : ℤ) - Nat.log 10 d := by
    rw [digits, digits, String.length_ofList, String.length_ofList, length_toDigits_eq_log n hn,
      length_toDigits_eq_log d hd]
    push_cast
    ring
  unfold floorLog10
  dsimp only
  rw [hE]
  generalize scale d ((Nat.log 10 n : ℤ) - Nat.log 10 d) = S at hPos hScale
  obtain ⟨a, b⟩ := S
  dsimp only at hPos hScale ⊢
  have hCmp : n * b < a ↔ (n : ℚ) / d < 10 ^ ((Nat.log 10 n : ℤ) - Nat.log 10 d) := by
    rw [div_lt_iff₀ hdq, ← mul_comm (d : ℚ), ← hScale, lt_div_iff₀ (by exact_mod_cast hPos)]
    exact_mod_cast Iff.rfl
  split_ifs with hBelow
  · exact (log_eq_of_bracket (by norm_num) hLow.le
      (by rw [sub_add_cancel]; exact_mod_cast hCmp.mp hBelow)).symm
  · exact (log_eq_of_bracket (by norm_num) (by exact_mod_cast not_lt.mp (hCmp.not.mp hBelow))
      hHigh).symm

theorem exactQuotient_spec (m : ℕ) (q : ℤ) :
    0 < (Float.Format.exactQuotient m q).2 ∧
      ((Float.Format.exactQuotient m q).1 : ℚ) / (Float.Format.exactQuotient m q).2 = m * 2 ^ q := by
  unfold Float.Format.exactQuotient
  simp only [Nat.pow_eq]
  split_ifs with hq
  · refine ⟨Nat.one_pos, ?_⟩
    rw [zpow_of_nonneg 2 hq]
    push_cast
    rw [div_one]
  · refine ⟨by positivity, ?_⟩
    rw [zpow_of_neg 2 hq]
    push_cast
    rw [div_eq_mul_inv]

theorem exactQuotient_pos (m : ℕ) (q : ℤ) (hm : 0 < m) : 0 < (Float.Format.exactQuotient m q).1 := by
  unfold Float.Format.exactQuotient
  simp only [Nat.pow_eq]
  split_ifs <;> positivity

end Fiff.Decimal
