import Fiff.Proofs.JsonNumber
import Fiff.Proofs.QuotientRounding
import Fiff.Named.Json
import Mathlib

/-!
# Interchange text read back

The interchange text of a finite single-precision value is a numeral the JSON reader takes as a
decimal: its shortest digits `c · 10^k` laid out with a point inside them, after `0.`, before an
exponent, or followed by zeros and `.0`. In the last layout the reader sees `c · 10^(k+1)` over
ten, which rounds as `c · 10^k` does. So the text reads back as the value exactly when the
shortest decimal rounds back to it (`Binary32.ReadsBack`); zeros always do, and infinities and
not-a-numbers are written as `null`, which is no number.
-/

set_option autoImplicit false

namespace Fiff

open Fiff.Json

theorem Decimal.toList_digits (c : ℕ) : (Decimal.digits c).toList = Nat.toDigits 10 c := by
  rw [Decimal.digits, String.toList_ofList]

theorem Decimal.toList_zeros (n : ℕ) : (Decimal.zeros n).toList = List.replicate n '0' := by
  rw [Decimal.zeros, String.toList_ofList]

theorem digits_mem_isDigit {c : ℕ} {ch : Char} (h : ch ∈ (Decimal.digits c).toList) :
    isDigit ch = true :=
  isDigit_of_mem_toDigits (Decimal.toList_digits c ▸ h)

theorem digitsValue_digits (c : ℕ) : digitsValue (Decimal.digits c).toList = c := by
  rw [Decimal.toList_digits, digitsValue_toDigits]

theorem numeral_of_exponent {c : ℕ} {d : Char} {rest : List Char} (hL : (Decimal.digits c).toList = d :: rest)
    (hd : d ≠ '0') (x : ℤ) :
    ∃ n : DecimalNumeral,
      d :: fractionText (if rest = [] then none else some rest) ++ exponentText (some x) = n.text ∧
        n.digits = c ∧ n.scale = x - rest.length := by
  have hFirst : isDigit d = true := digits_mem_isDigit (hL ▸ List.mem_cons_self)
  have hRest : ∀ ch ∈ rest, isDigit ch = true :=
    fun ch hch => digits_mem_isDigit (hL ▸ List.mem_cons_of_mem d hch)
  refine ⟨⟨[d], if rest = [] then none else some rest, some x,
    Or.inr ⟨d, [], rfl, hFirst, hd, by simp⟩, fun fs hfs => ?_, Or.inr rfl⟩, rfl, ?_, ?_⟩
  · split at hfs
    · cases hfs
    · cases hfs
      exact ⟨‹_›, hRest⟩
  · have hValue : digitsValue (d :: rest) = c := hL ▸ digitsValue_digits c
    by_cases hNil : rest = []
    · subst hNil
      simpa [DecimalNumeral.digits] using hValue
    · simpa [DecimalNumeral.digits, hNil] using hValue
  · by_cases hNil : rest = [] <;> simp [DecimalNumeral.scale, hNil]

section Layouts

variable {c : ℕ} (hc : c ≠ 0)
include hc

theorem numeral_of_zeros (j : ℕ) :
    ∃ n : DecimalNumeral, (Decimal.digits c ++ Decimal.zeros j ++ ".0").toList = n.text ∧
      n.digits = c * 10 ^ (j + 1) ∧ n.scale = -1 := by
  refine ⟨⟨Nat.toDigits 10 (c * 10 ^ j), some ['0'], none, wholeDigits_toDigits _,
    fun fs hfs => ?_, Or.inl rfl⟩, ?_, ?_, rfl⟩
  · cases hfs
    exact ⟨List.cons_ne_nil _ _, by simp [isDigit_zero]⟩
  · simp [DecimalNumeral.text, Decimal.toList_digits, Decimal.toList_zeros,
      Float.toDigits_mul_pow_ten hc, fractionText, exponentText]
  · rw [DecimalNumeral.digits, Option.getD_some, digitsValue_append, digitsValue_toDigits,
      pow_succ, ← Nat.mul_assoc]
    simp [digitsValue]

theorem numeral_of_point {j : ℕ} (hj : 0 < j) (hLt : j < (Decimal.digits c).length) :
    ∃ n : DecimalNumeral, (String.ofList ((Decimal.digits c).toList.take j) ++ "." ++
        String.ofList ((Decimal.digits c).toList.drop j)).toList = n.text ∧
      n.digits = c ∧ n.scale = (j : ℤ) - (Decimal.digits c).length := by
  obtain ⟨d, ds, hL, hd⟩ := toDigits_eq_cons hc
  rw [← Decimal.toList_digits] at hL
  have hLength : (Decimal.digits c).toList.length = (Decimal.digits c).length :=
    String.length_toList
  have hWhole : WholeDigits ((Decimal.digits c).toList.take j) := by
    obtain ⟨i, rfl⟩ : ∃ i, j = i + 1 := ⟨j - 1, by omega⟩
    rw [hL, List.take_succ_cons]
    exact Or.inr ⟨d, ds.take i, rfl, digits_mem_isDigit (hL ▸ List.mem_cons_self), hd,
      fun ch hch => digits_mem_isDigit (hL ▸ List.mem_cons_of_mem d (List.mem_of_mem_take hch))⟩
  refine ⟨⟨(Decimal.digits c).toList.take j, some ((Decimal.digits c).toList.drop j), none, hWhole,
    fun fs hfs => ?_, Or.inl rfl⟩, ?_, ?_, ?_⟩
  · cases hfs
    refine ⟨fun hNil => ?_, fun ch hch => digits_mem_isDigit (List.mem_of_mem_drop hch)⟩
    rw [List.drop_eq_nil_iff] at hNil
    omega
  · simp [DecimalNumeral.text, fractionText, exponentText]
  · rw [DecimalNumeral.digits, Option.getD_some, List.take_append_drop, digitsValue_digits c]
  · rw [DecimalNumeral.scale, Option.getD_some, Option.getD_none, List.length_drop, hLength]
    omega

theorem numeral_of_leading_zeros (j : ℕ) :
    ∃ n : DecimalNumeral, ("0." ++ Decimal.zeros j ++ Decimal.digits c).toList = n.text ∧
      n.digits = c ∧ n.scale = -((j : ℤ) + (Decimal.digits c).length) := by
  have hLength : (Decimal.digits c).toList.length = (Decimal.digits c).length :=
    String.length_toList
  refine ⟨⟨['0'], some (List.replicate j '0' ++ (Decimal.digits c).toList), none, Or.inl rfl,
    fun fs hfs => ?_, Or.inl rfl⟩, ?_, ?_, ?_⟩
  · cases hfs
    refine ⟨?_, fun ch hch => ?_⟩
    · obtain ⟨d, ds, hL, -⟩ := toDigits_eq_cons hc
      rw [Decimal.toList_digits, hL]
      simp
    · rcases List.mem_append.mp hch with hZero | hDigit
      · rw [List.eq_of_mem_replicate hZero]
        exact isDigit_zero
      · exact digits_mem_isDigit hDigit
  · simp [DecimalNumeral.text, Decimal.toList_zeros, fractionText, exponentText]
  · rw [DecimalNumeral.digits]
    dsimp only
    rw [Option.getD_some, ← List.append_assoc, show ['0'] ++ List.replicate j '0' =
      List.replicate (j + 1) '0' from rfl, digitsValue_append, digitsValue_replicate_zero,
      Nat.zero_mul, Nat.zero_add, digitsValue_digits c]
  · rw [DecimalNumeral.scale, Option.getD_some, Option.getD_none, List.length_append,
      List.length_replicate, hLength]
    omega

end Layouts

theorem render_numeral {c : ℕ} (hc : c ≠ 0) (k : ℤ) :
    ∃ n : DecimalNumeral, (Decimal.interchange32.render c k).toList = n.text ∧
      (n.digits = c ∧ n.scale = k ∨ 0 ≤ k ∧ n.digits = c * 10 ^ (k.toNat + 1) ∧ n.scale = -1) := by
  unfold Decimal.Layout.render
  simp only [Decimal.interchange32, if_true]
  by_cases hA : 0 ≤ k ∧ ((Decimal.digits c).length : ℤ) + k ≤ 13
  · rw [if_pos hA]
    obtain ⟨n, hText, hDigits, hScale⟩ := numeral_of_zeros hc k.toNat
    exact ⟨n, hText, Or.inr ⟨hA.1, hDigits, hScale⟩⟩
  rw [if_neg hA]
  by_cases hB : 0 < ((Decimal.digits c).length : ℤ) + k ∧ ((Decimal.digits c).length : ℤ) + k ≤ 13
  · rw [if_pos hB]
    have hNeg : k < 0 := by omega
    obtain ⟨n, hText, hDigits, hScale⟩ := numeral_of_point hc (j := (((Decimal.digits c).length : ℤ)
      + k).toNat) (by omega) (by omega)
    exact ⟨n, hText, Or.inl ⟨hDigits, by rw [hScale]; omega⟩⟩
  rw [if_neg hB]
  by_cases hC : -6 < ((Decimal.digits c).length : ℤ) + k ∧ ((Decimal.digits c).length : ℤ) + k ≤ 0
  · rw [if_pos hC]
    obtain ⟨n, hText, hDigits, hScale⟩ := numeral_of_leading_zeros hc
      (-(((Decimal.digits c).length : ℤ) + k)).toNat
    exact ⟨n, hText, Or.inl ⟨hDigits, by rw [hScale]; omega⟩⟩
  rw [if_neg hC]
  obtain ⟨d, rest, hL0, hd⟩ := toDigits_eq_cons hc
  have hL : (Decimal.digits c).toList = d :: rest := by rw [Decimal.toList_digits, hL0]
  have hLength : (Decimal.digits c).length = rest.length + 1 := by
    rw [← String.length_toList, hL, List.length_cons]
  obtain ⟨n, hText, hDigits, hScale⟩ := numeral_of_exponent hL hd
    (((Decimal.digits c).length : ℤ) + k - 1)
  refine ⟨n, ?_, Or.inl ⟨hDigits, by rw [hScale, hLength]; push_cast; ring⟩⟩
  rw [← hText, hL]
  generalize ((Decimal.digits c).length : ℤ) + k - 1 = x
  cases rest with
  | nil => by_cases hx : x < 0 <;> simp [hx, hL0, Decimal.toList_digits, fractionText, exponentText]
  | cons r rs =>
    by_cases hx : x < 0 <;> simp [hx, Decimal.toList_digits, fractionText, exponentText]

/-- The interchange text of a finite value reads back as the value: zeros always do, and a
nonzero value does when its shortest decimal rounds back to it in single precision and is
finite in double precision. Infinities and not-a-numbers have no interchange text. -/
def Binary32.ReadsBack (x : Binary32) : Prop :=
  match x.classify with
  | .finite neg m q =>
    m = 0 ∨
      Float.binary32.ofDecimal neg (Decimal.shortest Float.binary32 m q).1
          (Decimal.shortest Float.binary32 m q).2 = x.bits.toNat ∧
        (Binary64.ofDecimal neg (Decimal.shortest Float.binary32 m q).1
          (Decimal.shortest Float.binary32 m q).2).isFinite = true
  | _ => False

instance (x : Binary32) : Decidable x.ReadsBack := by
  unfold Binary32.ReadsBack
  split <;> infer_instance

theorem Binary32.bits_of_zero {x : Binary32} {neg : Bool} {q : ℤ}
    (h : x.classify = .finite neg 0 q) : x.bits.toNat = if neg then 2 ^ 31 else 0 := by
  have hLt : x.bits.toNat < 2 ^ 32 := x.bits.toNat_lt
  have hFracBits : Nat.pow 2 Float.binary32.fractionBits = 8388608 := rfl
  have hExpBits : Nat.pow 2 Float.binary32.exponentBits = 256 := rfl
  have hWidth : Nat.pow 2 Float.binary32.width = 4294967296 := rfl
  have hSign : Float.binary32.signBit = 2147483648 := rfl
  have hTopValue : Float.binary32.topExponent = 255 := rfl
  unfold Binary32.classify Float.Format.classify at h
  dsimp only at h
  generalize x.bits.toNat = b at h hLt ⊢
  by_cases hTop : b / Nat.pow 2 Float.binary32.fractionBits % Nat.pow 2 Float.binary32.exponentBits =
      Float.binary32.topExponent
  · rw [if_pos hTop] at h
    split at h <;> cases h
  rw [if_neg hTop] at h
  by_cases hZero : b / Nat.pow 2 Float.binary32.fractionBits % Nat.pow 2 Float.binary32.exponentBits = 0
  · rw [if_pos hZero] at h
    injection h with hNeg hFrac
    subst hNeg
    rw [hFracBits, hExpBits] at hZero
    rw [hFracBits] at hFrac
    rw [hSign, hWidth]
    split_ifs <;> simp_all <;> omega
  · rw [if_neg hZero] at h
    injection h with _ hFrac
    rw [hFracBits] at hFrac
    omega

theorem ofDecimal_zero (f : Float.Format) (neg : Bool) (e : ℤ) :
    f.ofDecimal neg 0 e = if neg then f.signBit else 0 := by
  cases neg <;> simp [Float.Format.ofDecimal, Float.Format.ofQuotient, Float.Format.roundQuotient]

def zeroNumeral : DecimalNumeral :=
  ⟨['0'], some ['0'], none, Or.inl rfl, fun fs hfs => by cases hfs; exact ⟨by simp, by simp [isDigit_zero]⟩,
    Or.inl rfl⟩

theorem Binary32.numeral_of_readsBack {x : Binary32} (hx : x.ReadsBack) :
    ∃ (neg : Bool) (n : DecimalNumeral), x.toJson.compact.toList = signText neg ++ n.text ∧
      Float.binary32.ofDecimal neg n.digits n.scale = x.bits.toNat ∧
      (Binary64.ofDecimal neg n.digits n.scale).isFinite = true := by
  unfold Binary32.ReadsBack at hx
  split at hx
  case h_2 => exact absurd hx id
  rename_i neg m q hClass
  have hText : x.toJson.compact = Decimal.interchange32.finite Float.binary32 neg m q := by
    simp [Binary32.toJson, Binary32.interchange?, hClass, Value.compact]
  refine ⟨neg, ?_⟩
  rw [hText, Decimal.Layout.finite]
  have hSign : (if neg then "-" else "").toList = signText neg := by cases neg <;> rfl
  by_cases hm : m = 0
  · refine ⟨zeroNumeral, ?_, ?_, ?_⟩
    · rw [if_pos hm, String.toList_append, hSign]
      rfl
    · rw [show zeroNumeral.digits = 0 from rfl, ofDecimal_zero, Binary32.bits_of_zero (hm ▸ hClass)]
      cases neg <;> rfl
    · cases neg <;> decide
  rcases hx with hm0 | ⟨hRound, hFinite⟩
  · exact absurd hm0 hm
  rw [if_neg hm]
  generalize Decimal.shortest Float.binary32 m q = ck at hRound hFinite ⊢
  obtain ⟨c, k⟩ := ck
  dsimp only at hRound hFinite ⊢
  have hc : c ≠ 0 := by
    rintro rfl
    rw [ofDecimal_zero] at hRound
    have hZero : x.classify = .finite neg 0 Float.binary32.minQuantum := by
      rw [Binary32.classify, ← hRound]
      cases neg <;> rfl
    rw [hZero] at hClass
    injection hClass with _ hm0
    exact hm hm0.symm
  obtain ⟨n, hn, hValue⟩ := render_numeral hc k
  refine ⟨n, by rw [String.toList_append, hSign, hn], ?_⟩
  rcases hValue with ⟨hDigits, hScale⟩ | ⟨hk, hDigits, hScale⟩
  · rw [hDigits, hScale]
    exact ⟨hRound, hFinite⟩
  · rw [hDigits, hScale, Float.Format.ofDecimal_shift _ _ _ hk, Binary64.ofDecimal,
      Float.Format.ofDecimal_shift _ _ _ hk]
    exact ⟨hRound, hFinite⟩

theorem Binary32.ReadsBack.finite {x : Binary32} (hx : x.ReadsBack) :
    ∃ neg m q, x.classify = .finite neg m q := by
  unfold Binary32.ReadsBack at hx
  split at hx
  · exact ⟨_, _, _, ‹_›⟩
  · exact absurd hx id

theorem Binary64.classify_ne_infinite {y : Binary64} (h : y.isFinite = true) (s : Bool) :
    y.classify ≠ .infinite s := by
  intro hInf
  simp [Binary64.isFinite, hInf] at h

theorem Binary32.ReadsBack.text_cons {x : Binary32} (hx : x.ReadsBack) :
    ∃ c after, x.toJson.compact.toList = c :: after ∧ blank c = false ∧
      (c = '-' ∨ isDigit c = true) := by
  obtain ⟨neg, n, hText, -⟩ := Binary32.numeral_of_readsBack hx
  obtain ⟨d, tl, hCons, hd⟩ := n.text_cons
  rw [hText, hCons]
  cases neg with
  | false => exact ⟨d, tl, rfl, blank_eq_false_of_isDigit hd, Or.inr hd⟩
  | true => exact ⟨'-', d :: tl, rfl, by decide, Or.inl rfl⟩

theorem Binary32.ReadsBack.opensValue {x : Binary32} (hx : x.ReadsBack) :
    OpensValue x.toJson.compact.toList := by
  obtain ⟨c, after, hCons, hBlank, hStart⟩ := hx.text_cons
  refine ⟨c, after, hCons, hBlank, ?_, ?_⟩ <;>
  · rintro rfl
    rcases hStart with hSign | hDigit
    · exact absurd hSign (by decide)
    · exact absurd hDigit (by decide)

theorem reads_single (fuel : ℕ) {x : Binary32} (hx : x.ReadsBack) :
    ReadsValue (shaped (fuel + 1) .single) x.toJson.compact.toList (.single x) := by
  intro text p rest h hRest
  obtain ⟨c, after, hCons, hBlank, hStart⟩ := hx.text_cons
  have hAt : text.toList.drop p = c :: (after ++ rest) := by rw [h, hCons, List.cons_append]
  obtain ⟨neg, n, hText, hRound, hFinite⟩ := Binary32.numeral_of_readsBack hx
  obtain ⟨sNeg, m, q, hClass⟩ := hx.finite
  rw [hText, List.append_assoc] at h
  obtain ⟨d, tl, hNumeral, hd⟩ := n.text_cons
  have hBody := numberBody_decimal neg n (drop_add_of_drop h) hRest
    (Binary64.classify_ne_infinite hFinite)
  have hNumber := number_of_drop neg h
    (by rw [hNumeral, List.cons_append, List.head?_cons]; rintro ⟨⟩; exact absurd hd (by decide))
    hBody
  have hSingle : (⟨(Float.binary32.ofDecimal neg n.digits n.scale).toUInt32⟩ : Binary32) = x := by
    rw [hRound, Nat.toUInt32, UInt32.ofNat_toNat]
  rw [shaped]
  apply place_of_ok
  rw [bind_ok (skipBlank_of_drop hAt hBlank)]
  simp only [hStart, if_true]
  rw [bind_ok hNumber]
  simp only [singleOfDecimal, hSingle, hClass]
  rw [bind_ok (pure_run x text _), pure_run, hText, List.length_append, Nat.add_assoc]

end Fiff
