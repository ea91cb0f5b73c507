import Fiff.Proofs.DecimalRounding
import Fiff.Proofs.DecimalText

/-!
# Six significant digits against C's `%g`

C's `%g` with its default precision rounds a value to six significant digits and looks at the
decimal exponent `x` of the result: with `-4 ≤ x < 6` it writes the value positionally with
`5 - x` places, and otherwise with one digit before the point and an exponent; in both, the
trailing zeros of the fraction are removed and then a bare point. `percentG` states that rule on
the exact value, with `Int.log 10` and rounding to nearest, ties to even, on the rationals.

The general notation `general` follows it on every finite double but two kinds
(`general_eq_percentG`): a zero is written `0` whatever its sign, and at exponent `5`, where the
text is a whole number with no point, the trim of trailing zeros takes the zeros of the whole
number too, so that `100000` is written `1` (`general_hundred_thousand`).
-/

set_option autoImplicit false

namespace Fiff.Decimal

/-- The decimal exponent of `r` rounded to six significant digits: `r` is rounded at five places
below its leading digit, and the exponent is that of the result, one more than `r`'s own when
the rounding carries into a new digit. -/
def gExponent (r : ℚ) : ℤ :=
  Int.log 10 ((roundHalfEven (r / 10 ^ (Int.log 10 r - 5)) : ℚ) * 10 ^ (Int.log 10 r - 5))

/-- `%g` on a positive value: its six significant digits are `r` rounded at `10^(x - 5)`, where
`x` is the exponent of the rounded value; they are written with `5 - x` places when
`-4 ≤ x < 6`, and otherwise with five places and the exponent. -/
def gText (r : ℚ) : String :=
  let x := gExponent r
  let sixDigits := (roundHalfEven (r / 10 ^ (x - 5))).toNat
  if -4 ≤ x ∧ x < 6 then pointed sixDigits (5 - x).toNat
  else pointed sixDigits 5 ++ "e" ++ String.ofList (exponentDigits x)

/-- `%g` on the value `r` or `-r`: a sign for a negative one, and `0` for a zero. -/
def percentG (neg : Bool) (r : ℚ) : String :=
  (if neg then "-" else "") ++ if r = 0 then "0" else gText r

section SixDigits

variable {r : ℚ}

theorem sixth_place (e : ℤ) :
    (10 : ℚ) ^ 5 * 10 ^ (e - 5) = 10 ^ e ∧ (10 : ℚ) ^ 6 * 10 ^ (e - 5) = 10 ^ (e + 1) := by
  constructor <;> rw [← zpow_natCast, ← zpow_add₀ (by norm_num)] <;> ring_nf

theorem scaled_bounds (hr : 0 < r) :
    (10 : ℚ) ^ 5 ≤ r / 10 ^ (Int.log 10 r - 5) ∧ r / 10 ^ (Int.log 10 r - 5) < 10 ^ 6 := by
  have hLow := Int.zpow_log_le_self (b := 10) (by norm_num) hr
  have hHigh := Int.lt_zpow_succ_log_self (b := 10) (by norm_num) r
  push_cast at hLow hHigh
  have hPos : (0 : ℚ) < 10 ^ (Int.log 10 r - 5) := zpow_pos (by norm_num) _
  obtain ⟨hFive, hSix⟩ := sixth_place (Int.log 10 r)
  constructor
  · rw [le_div_iff₀ hPos, hFive]
    exact hLow
  · rw [div_lt_iff₀ hPos, hSix]
    exact hHigh

theorem sixDigits_bounds (hr : 0 < r) :
    10 ^ 5 ≤ roundHalfEven (r / 10 ^ (Int.log 10 r - 5)) ∧
      roundHalfEven (r / 10 ^ (Int.log 10 r - 5)) ≤ 10 ^ 6 := by
  obtain ⟨hLow, hHigh⟩ := scaled_bounds hr
  exact ⟨le_roundHalfEven (by push_cast; exact hLow),
    roundHalfEven_le (by push_cast; exact hHigh.le)⟩

theorem gExponent_of_ne (hr : 0 < r) (h : roundHalfEven (r / 10 ^ (Int.log 10 r - 5)) ≠ 10 ^ 6) :
    gExponent r = Int.log 10 r := by
  obtain ⟨hLow, hHigh⟩ := sixDigits_bounds hr
  have hBelow : roundHalfEven (r / 10 ^ (Int.log 10 r - 5)) < 10 ^ 6 := lt_of_le_of_ne hHigh h
  have hPos : (0 : ℚ) < 10 ^ (Int.log 10 r - 5) := zpow_pos (by norm_num) _
  obtain ⟨hFive, hSix⟩ := sixth_place (Int.log 10 r)
  unfold gExponent
  apply log_eq_of_bracket (by norm_num : 1 < 10)
  all_goals push_cast
  · calc (10 : ℚ) ^ Int.log 10 r = 10 ^ 5 * 10 ^ (Int.log 10 r - 5) := hFive.symm
      _ ≤ _ := mul_le_mul_of_nonneg_right (by exact_mod_cast hLow) hPos.le
  · calc _ < (10 : ℚ) ^ 6 * 10 ^ (Int.log 10 r - 5) :=
          mul_lt_mul_of_pos_right (by exact_mod_cast hBelow) hPos
      _ = 10 ^ (Int.log 10 r + 1) := hSix

theorem gExponent_of_carry (h : roundHalfEven (r / 10 ^ (Int.log 10 r - 5)) = 10 ^ 6) :
    gExponent r = Int.log 10 r + 1 := by
  have hPow : ((10 ^ 6 : ℤ) : ℚ) * 10 ^ (Int.log 10 r - 5) = (10 : ℚ) ^ (Int.log 10 r + 1) := by
    rw [Int.cast_pow, Int.cast_ofNat]
    exact (sixth_place _).2
  unfold gExponent
  rw [h, hPow]
  exact_mod_cast Int.log_zpow (R := ℚ) (b := 10) (by norm_num) _

theorem carry_sixDigits (hr : 0 < r) (h : roundHalfEven (r / 10 ^ (Int.log 10 r - 5)) = 10 ^ 6) :
    roundHalfEven (r / 10 ^ (Int.log 10 r + 1 - 5)) = 10 ^ 5 := by
  have hErr := abs_le.mp (abs_sub_roundHalfEven_le (r / 10 ^ (Int.log 10 r - 5)))
  rw [h] at hErr
  push_cast at hErr
  have hHigh := (scaled_bounds hr).2
  have hTenth : r / 10 ^ (Int.log 10 r + 1 - 5) = r / 10 ^ (Int.log 10 r - 5) / 10 := by
    rw [show Int.log 10 r + 1 - 5 = Int.log 10 r - 5 + 1 by ring, zpow_add_one₀ (by norm_num),
      div_div]
  apply roundHalfEven_eq_of_near
  rw [hTenth, abs_lt]
  push_cast
  constructor <;> linarith

theorem le_sixDigits (hr : 0 < r) : 10 ^ 5 ≤ roundHalfEven (r / 10 ^ (gExponent r - 5)) := by
  by_cases hCarry : roundHalfEven (r / 10 ^ (Int.log 10 r - 5)) = 10 ^ 6
  · rw [gExponent_of_carry hCarry, carry_sixDigits hr hCarry]
  · rw [gExponent_of_ne hr hCarry]
    exact (sixDigits_bounds hr).1

theorem gText_of_five (h : gExponent r = 5) :
    gText r = digits (roundHalfEven (r / 10 ^ (gExponent r - 5))).toNat := by
  unfold gText
  dsimp only
  rw [if_pos (by omega), h, show ((5 : ℤ) - 5).toNat = 0 from rfl, pointed_zero]

end SixDigits

theorem layout_eq_gText (n d : ℕ) (hd : 0 < d) {x : ℤ} {c : ℕ} (hx : x = gExponent (n / d))
    (hc : (c : ℤ) = roundHalfEven ((n : ℚ) / d / 10 ^ (x - 5))) :
    (if -4 ≤ x ∧ x < 6 then
        trimZeros (fixed (roundAt n d (-((5 - x).toNat : ℤ))) (5 - x).toNat)
      else trimZeros (fixed c 5) ++ "e" ++ exponentText x) =
      if gExponent (n / d) = 5 then trimZeros (gText (n / d)) else gText (n / d) := by
  have hSix : c = (roundHalfEven ((n : ℚ) / d / 10 ^ (x - 5))).toNat := by
    rw [← hc, Int.toNat_natCast]
  unfold gText
  dsimp only
  rw [← hx, ← hSix]
  by_cases hRange : -4 ≤ x ∧ x < 6
  · have hPlace : -(((5 - x).toNat : ℕ) : ℤ) = x - 5 := by omega
    have hAt : roundAt n d (-((5 - x).toNat : ℤ)) = c := by
      rw [hPlace, hSix, ← roundAt_eq n d hd, Int.toNat_natCast]
    rw [if_pos hRange, if_pos hRange, hAt]
    by_cases hFive : x = 5
    · rw [if_pos hFive, hFive, show ((5 : ℤ) - 5).toNat = 0 from rfl, fixed_zero, pointed_zero]
    · rw [if_neg hFive, trimZeros_fixed _ _ (by omega)]
  · have hFive : x ≠ 5 := by omega
    rw [if_neg hRange, if_neg hRange, if_neg hFive, trimZeros_fixed _ _ (by norm_num),
      exponentText_eq]

theorem generalPositive_eq (n d : ℕ) (hn : 0 < n) (hd : 0 < d) :
    generalPositive n d =
      if gExponent (n / d) = 5 then trimZeros (gText (n / d)) else gText (n / d) := by
  have hr : (0 : ℚ) < n / d := by positivity
  have hSix := roundAt_eq n d hd (Int.log 10 ((n : ℚ) / d) - 5)
  unfold generalPositive
  dsimp only
  rw [floorLog10_eq n d hn hd]
  by_cases hCarry : roundAt n d (Int.log 10 ((n : ℚ) / d) - 5) = Nat.pow 10 6
  · have hCarry' : roundHalfEven ((n : ℚ) / d / 10 ^ (Int.log 10 ((n : ℚ) / d) - 5)) = 10 ^ 6 := by
      rw [← hSix, hCarry]
      rfl
    rw [if_pos hCarry]
    dsimp only
    exact layout_eq_gText n d hd (c := Nat.pow 10 5) (gExponent_of_carry hCarry').symm
      (by rw [carry_sixDigits hr hCarry']; rfl)
  · have hNoCarry :
        roundHalfEven ((n : ℚ) / d / 10 ^ (Int.log 10 ((n : ℚ) / d) - 5)) ≠ 10 ^ 6 := by
      rw [← hSix]
      exact fun h => hCarry (by exact_mod_cast h)
    rw [if_neg hCarry]
    dsimp only
    exact layout_eq_gText n d hd (gExponent_of_ne hr hNoCarry).symm hSix

/-- The general notation of a finite double against `%g` on its exact value `m · 2^q`: they
agree, except that a zero is written `0` whatever its sign, and that at exponent `5` the
trailing zeros of the whole number are trimmed as well. -/
theorem general_eq_percentG (x : Binary64) {neg : Bool} {m : ℕ} {q : ℤ}
    (h : x.classify = .finite neg m q) :
    general x =
      if m = 0 then "0"
      else if gExponent (m * 2 ^ q) = 5 then trimZeros (percentG neg (m * 2 ^ q))
      else percentG neg (m * 2 ^ q) := by
  unfold general
  rw [h]
  dsimp only
  by_cases hm : m = 0
  · rw [if_pos hm, if_pos hm]
  rw [if_neg hm, if_neg hm]
  obtain ⟨hd, hValue⟩ := exactQuotient_spec m q
  have hn := exactQuotient_pos m q (Nat.pos_of_ne_zero hm)
  generalize Float.Format.exactQuotient m q = nd at hd hValue hn
  obtain ⟨n, d⟩ := nd
  dsimp only at hd hValue hn ⊢
  have hr : (0 : ℚ) < n / d := by positivity
  rw [← hValue, generalPositive_eq n d hn hd, percentG, if_neg hr.ne']
  by_cases hFive : gExponent ((n : ℚ) / d) = 5
  · have hDigits : 0 < (roundHalfEven ((n : ℚ) / d / 10 ^ (gExponent ((n : ℚ) / d) - 5))).toNat := by
      have := le_sixDigits hr
      omega
    rw [if_pos hFive, if_pos hFive, gText_of_five hFive, trimZeros_append_digits _ hDigits]
  · rw [if_neg hFive, if_neg hFive]

/-- `12 / 7` as a double, written with six significant digits. -/
theorem general_eq_percentG_twelve_sevenths :
    Binary64.classify ⟨0x3FFB6DB6DB6DB6DB⟩ = .finite false 7720456504063707 (-52) ∧
      general ⟨0x3FFB6DB6DB6DB6DB⟩ =
        if 7720456504063707 = 0 then "0"
        else if gExponent ((7720456504063707 : ℕ) * 2 ^ (-52 : ℤ)) = 5 then
          trimZeros (percentG false ((7720456504063707 : ℕ) * 2 ^ (-52 : ℤ)))
        else percentG false ((7720456504063707 : ℕ) * 2 ^ (-52 : ℤ)) :=
  ⟨rfl, general_eq_percentG _ rfl⟩

/-- Where the printer and `%g` part: `100000` has exponent `5`, so the printer writes the whole
number with no point and its trim then takes the zeros, giving `1` where `%g` gives `100000`;
and the zero with its sign set is written `0` where `%g` gives `-0`. -/
theorem general_differs_from_percentG :
    Binary64.classify ⟨0x40F86A0000000000⟩ = .finite false 6871947673600000 (-36) ∧
      ((6871947673600000 : ℕ) : ℚ) * 2 ^ (-36 : ℤ) = 100000 ∧
      general ⟨0x40F86A0000000000⟩ = "1" ∧ percentG false 100000 = "100000" ∧
      Binary64.classify ⟨0x8000000000000000⟩ = .finite true 0 (-1074) ∧
      general ⟨0x8000000000000000⟩ = "0" ∧ percentG true 0 = "-0" := by
  have hLog : Int.log 10 (100000 : ℚ) = 5 := by
    rw [show (100000 : ℚ) = 10 ^ (5 : ℤ) by norm_num]
    exact_mod_cast Int.log_zpow (R := ℚ) (b := 10) (by norm_num) 5
  have hWhole : roundHalfEven 100000 = 100000 := by
    exact_mod_cast roundHalfEven_intCast 100000
  have hExp : gExponent 100000 = 5 := by
    have hSix : roundHalfEven ((100000 : ℚ) / 10 ^ (Int.log 10 (100000 : ℚ) - 5)) = 100000 := by
      rw [hLog, sub_self, zpow_zero, div_one, hWhole]
    rw [gExponent_of_ne (by norm_num) (by rw [hSix]; norm_num), hLog]
  have hText : gText 100000 = "100000" := by
    rw [gText_of_five hExp, hExp, sub_self, zpow_zero, div_one, hWhole]
    decide
  refine ⟨rfl, by norm_num, by decide, ?_, rfl, by decide, by decide⟩
  rw [percentG, if_neg (by norm_num), hText]
  rfl

end Fiff.Decimal
