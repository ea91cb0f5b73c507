import Fiff.Decimal.General
import Mathlib

/-!
# Decimal text with a point

`%g`'s rule for text is stated here on digit lists, with no reference to the printers:
`pointed F p` writes `F · 10^(-p)` as the digits of its whole part, then a point and its last
`p` digits with their trailing zeros removed, the point only when a digit is left; an exponent
is written with its sign and at least two digits (`exponentDigits`). The printers build a
string with `fixed`, pad it and cut it by lengths, then trim it from the end with `trimZeros`,
which knows nothing of where the point is. When there are places, the trim stops at the point
and the two readings agree (`trimZeros_fixed`); with no places, it trims the whole number.
-/

set_option autoImplicit false

namespace Fiff.Decimal

def lowDigits : ℕ → ℕ → List Char
  | 0, _ => []
  | p + 1, b => lowDigits p (b / 10) ++ [Nat.digitChar (b % 10)]

/-- The fractional part of a text from its digits: trailing zeros dropped, and a point before
what is left, if anything is. -/
def fractionText (ds : List Char) : List Char :=
  match ds.rdropWhile (· == '0') with
  | [] => []
  | t => '.' :: t

/-- The text of `F · 10^(-p)`: every digit of its whole part, then its last `p` digits as a
trimmed fractional part. -/
def pointed (F p : ℕ) : String :=
  String.ofList (Nat.toDigits 10 (F / 10 ^ p) ++ fractionText (lowDigits p F))

/-- An exponent as `%e` writes it: its sign, then its digits, at least two of them. -/
def exponentDigits (x : ℤ) : List Char :=
  (if x < 0 then '-' else '+') ::
    ((if x.natAbs < 10 then ['0'] else []) ++ Nat.toDigits 10 x.natAbs)

@[simp] theorem length_lowDigits (p b : ℕ) : (lowDigits p b).length = p := by
  induction p generalizing b with
  | zero => rfl
  | succ p ih => simp [lowDigits, ih]

theorem ne_point_of_mem_lowDigits {p b : ℕ} {c : Char} (h : c ∈ lowDigits p b) : c ≠ '.' := by
  induction p generalizing b with
  | zero => simp [lowDigits] at h
  | succ p ih =>
    simp only [lowDigits, List.mem_append, List.mem_singleton] at h
    rcases h with h | rfl
    · exact ih h
    · intro hPoint
      have hDigit : (b % 10).digitChar.isDigit = true := by
        rw [Nat.isDigit_digitChar]
        simp [Nat.mod_lt]
      rw [hPoint] at hDigit
      exact absurd hDigit (by decide)

theorem ne_point_of_mem_toDigits {n : ℕ} {c : Char} (h : c ∈ Nat.toDigits 10 n) : c ≠ '.' := by
  intro hPoint
  have hDigit := Nat.isDigit_of_mem_toDigits (by decide) (by decide) h
  rw [hPoint] at hDigit
  exact absurd hDigit (by decide)

theorem replicate_append_toDigits (c p : ℕ) :
    List.replicate (p + 1 - (Nat.toDigits 10 c).length) '0' ++ Nat.toDigits 10 c =
      Nat.toDigits 10 (c / 10 ^ p) ++ lowDigits p c := by
  induction p generalizing c with
  | zero =>
    have := Nat.length_toDigits_pos (b := 10) (n := c)
    simp [lowDigits, show 0 + 1 - (Nat.toDigits 10 c).length = 0 by omega]
  | succ p ih =>
    have hDiv : c / 10 ^ (p + 1) = c / 10 / 10 ^ p := by
      rw [Nat.div_div_eq_div_mul, Nat.pow_succ, Nat.mul_comm]
    rw [hDiv, lowDigits, ← List.append_assoc, ← ih]
    by_cases hSmall : c < 10
    · rw [Nat.toDigits_of_lt_base hSmall, Nat.div_eq_of_lt hSmall, Nat.toDigits_zero,
        Nat.mod_eq_of_lt hSmall]
      simp [List.replicate_succ']
    · rw [Nat.toDigits_of_base_le (by decide) (by omega)]
      simp only [List.length_append, List.length_singleton, List.append_assoc]
      rw [show p + 1 + 1 - ((Nat.toDigits 10 (c / 10)).length + 1) =
        p + 1 - (Nat.toDigits 10 (c / 10)).length by omega]

theorem toList_fixed (c p : ℕ) (hp : 0 < p) :
    (fixed c p).toList = Nat.toDigits 10 (c / 10 ^ p) ++ '.' :: lowDigits p c := by
  have hPad := replicate_append_toDigits c p
  unfold fixed
  dsimp only
  rw [if_neg (by omega)]
  generalize hDs : String.ofList (List.replicate (p + 1 - (digits c).length) '0') ++ digits c = ds
  have hList : ds.toList = Nat.toDigits 10 (c / 10 ^ p) ++ lowDigits p c := by
    rw [← hDs, String.toList_append, String.toList_ofList, digits, String.toList_ofList,
      String.length_ofList, hPad]
  have hLen : ds.length - p = (Nat.toDigits 10 (c / 10 ^ p)).length := by
    rw [← String.length_toList, hList, List.length_append, length_lowDigits]
    omega
  have hPoint : ".".toList = ['.'] := rfl
  simp only [String.toList_append, String.toList_ofList, hList, hLen, hPoint,
    List.take_left' rfl, List.drop_left' rfl, List.append_assoc, List.singleton_append]

theorem fixed_zero (c : ℕ) : fixed c 0 = digits c := by
  have hPos := Nat.length_toDigits_pos (b := 10) (n := c)
  unfold fixed
  dsimp only
  rw [if_pos rfl, digits, String.length_ofList,
    show 0 + 1 - (Nat.toDigits 10 c).length = 0 by omega]
  rfl

theorem rdropWhile_append {α : Type} (p : α → Bool) (l₁ l₂ : List α) :
    (l₁ ++ l₂).rdropWhile p =
      if l₂.rdropWhile p = [] then l₁.rdropWhile p else l₁ ++ l₂.rdropWhile p := by
  unfold List.rdropWhile
  rw [List.reverse_append, List.dropWhile_append]
  by_cases h : l₂.reverse.dropWhile p = []
  · simp [h]
  · simp [h]

theorem append_ne_point {s t : List Char} (ht : ∀ c ∈ t, c ≠ '.') (hne : t ≠ [])
    (u : List Char) : s ++ t ≠ u ++ ['.'] := by
  intro h
  have hLast : (s ++ t).getLast? = some '.' := by rw [h]; simp
  rw [List.getLast?_append, List.getLast?_eq_some_getLast hne] at hLast
  exact ht _ (List.getLast_mem hne) (by simpa using hLast)

theorem trimZeros_ofList {l t : List Char} (h : l.rdropWhile (· == '0') = t)
    (ht : ∀ u, t ≠ u ++ ['.']) : trimZeros (String.ofList l) = String.ofList t := by
  have hDrop : l.reverse.dropWhile (· == '0') = t.reverse := by
    rw [← h, List.rdropWhile, List.reverse_reverse]
  unfold trimZeros
  simp only [String.toList_ofList, hDrop]
  split
  · rename_i rest hRest
    exact absurd (by rw [← List.reverse_reverse t, hRest]; simp) (ht rest.reverse)
  · rw [List.reverse_reverse]

theorem trimZeros_ofList_point {l t : List Char} (h : l.rdropWhile (· == '0') = t ++ ['.']) :
    trimZeros (String.ofList l) = String.ofList t := by
  have hDrop : l.reverse.dropWhile (· == '0') = '.' :: t.reverse := by
    rw [← List.reverse_reverse (l.reverse.dropWhile _), ← List.rdropWhile, h]
    simp
  unfold trimZeros
  simp only [String.toList_ofList, hDrop, List.reverse_reverse]

/-- Trimming a text with places leaves its whole part and its trimmed fractional part. -/
theorem trimZeros_fixed (c p : ℕ) (hp : 0 < p) : trimZeros (fixed c p) = pointed c p := by
  have hPointFree : ∀ x ∈ lowDigits p c, x ≠ '.' := fun _ hx => ne_point_of_mem_lowDigits hx
  have hAfterPoint : ('.' :: lowDigits p c).rdropWhile (· == '0') =
      '.' :: (lowDigits p c).rdropWhile (· == '0') := by
    rw [← List.singleton_append, rdropWhile_append]
    split_ifs with hZeros
    · simp [hZeros, List.rdropWhile_singleton]
    · rfl
  rw [← String.ofList_toList (s := fixed c p), toList_fixed c p hp, pointed, fractionText]
  split
  · rename_i hZeros
    rw [List.append_nil]
    apply trimZeros_ofList_point
    rw [rdropWhile_append, if_neg (by simp [hAfterPoint]), hAfterPoint, hZeros]
  · rename_i rest hRest
    apply trimZeros_ofList
    · rw [rdropWhile_append, if_neg (by simp [hAfterPoint]), hAfterPoint]
    · intro u
      rw [← List.singleton_append, ← List.append_assoc]
      apply append_ne_point _ hRest
      intro x hx
      exact hPointFree x ((List.rdropWhile_prefix _ _).subset hx)

theorem rdropWhile_toDigits_ne_nil {F : ℕ} (hF : 0 < F) :
    (Nat.toDigits 10 F).rdropWhile (· == '0') ≠ [] := by
  intro hZeros
  rw [List.rdropWhile_eq_nil_iff] at hZeros
  have hRep : Nat.toDigits 10 F = List.replicate (Nat.toDigits 10 F).length '0' :=
    List.eq_replicate_iff.mpr ⟨rfl, fun x hx => by simpa using hZeros x hx⟩
  have hValue := Nat.ofDigitChars_ten_toDigits (n := F)
  rw [hRep, Nat.ofDigitChars_replicate_zero] at hValue
  omega

theorem trimZeros_append_toDigits (s : List Char) {F : ℕ} (hF : 0 < F) :
    trimZeros (String.ofList (s ++ Nat.toDigits 10 F)) =
      String.ofList (s ++ (Nat.toDigits 10 F).rdropWhile (· == '0')) := by
  apply trimZeros_ofList
  · rw [rdropWhile_append, if_neg (rdropWhile_toDigits_ne_nil hF)]
  · exact append_ne_point
      (fun _ hx => ne_point_of_mem_toDigits ((List.rdropWhile_prefix _ _).subset hx))
      (rdropWhile_toDigits_ne_nil hF)

theorem trimZeros_append_digits (s : String) {F : ℕ} (hF : 0 < F) :
    trimZeros (s ++ digits F) = s ++ trimZeros (digits F) := by
  have hJoin : s ++ digits F = String.ofList (s.toList ++ Nat.toDigits 10 F) := by
    rw [← String.toList_inj, digits, String.toList_append, String.toList_ofList,
      String.toList_ofList]
  have hAlone : digits F = String.ofList ([] ++ Nat.toDigits 10 F) := rfl
  rw [hJoin, trimZeros_append_toDigits _ hF, hAlone, trimZeros_append_toDigits _ hF,
    ← String.toList_inj]
  simp only [String.toList_ofList, String.toList_append, List.nil_append]

theorem pointed_zero (F : ℕ) : pointed F 0 = digits F := by
  simp [pointed, fractionText, lowDigits, digits]

theorem exponentText_eq (x : ℤ) : exponentText x = String.ofList (exponentDigits x) := by
  have hShort : (Nat.toDigits 10 x.natAbs).length < 2 ↔ x.natAbs < 10 := by
    have h := Nat.length_toDigits_le_iff (b := 10) (n := x.natAbs) (k := 1) (by decide)
      (by decide)
    exact ⟨fun hLen => h.mp (by omega), fun hSmall => by have := h.mpr hSmall; omega⟩
  unfold exponentText exponentDigits
  dsimp only
  rw [digits, String.length_ofList, ← String.toList_inj]
  by_cases hNeg : x < 0 <;> by_cases hSmall : x.natAbs < 10 <;>
    simp [hNeg, hSmall, hShort, String.toList_append]

end Fiff.Decimal
