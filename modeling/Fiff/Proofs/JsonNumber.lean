import Fiff.Proofs.JsonScan
import Mathlib

/-!
# Numbers in JSON text

A number is read in three parts: a whole part (`0`, or digits with no leading zero), an optional
fraction after a point and an optional exponent after an `e`. Each part is read up to the first
character that cannot continue it, so a number followed by the end of the text or by `,`, `]` or
`}` is read whole. With a fraction or an exponent it is the decimal `±digits · 10^scale`, the
digits running over the whole part and the fraction and the scale being the exponent less the
fraction's length; without either it is an integer.
-/

set_option autoImplicit false

namespace Fiff.Json

def NoDigitAhead (rest : List Char) : Prop := ∀ c ∈ rest.head?, isDigit c = false

theorem noDigitAhead_cons {c : Char} (rest : List Char) (hc : isDigit c = false) :
    NoDigitAhead (c :: rest) := by
  intro d hd
  cases hd
  exact hc

theorem AfterValue.noDigitAhead {rest : List Char} (h : AfterValue rest) : NoDigitAhead rest := by
  intro c hc
  rcases h c hc with rfl | rfl | rfl <;> rfl

theorem AfterValue.head?_ne {rest : List Char} (h : AfterValue rest) {c : Char}
    (hc : c ≠ ',' ∧ c ≠ ']' ∧ c ≠ '\x7d') : rest.head? ≠ some c := by
  intro hHead
  rcases h c hHead with rfl | rfl | rfl <;> simp at hc

theorem peek_of_drop_head? {text : Array Char} {p : Nat} {l : List Char}
    (h : text.toList.drop p = l) : peek text p = .ok l.head? p := by
  rw [peek_run, ← Array.getElem?_toList, ← List.head?_drop, h]

section Digits

theorem isDigit_eq (c : Char) : isDigit c = c.isDigit := by
  rw [Bool.eq_iff_iff, Char.isDigit_iff_toNat, isDigit, decide_eq_true_iff, Char.le_def,
    Char.le_def]
  rfl

theorem isDigit_zero : isDigit '0' = true := by
  rw [isDigit_eq]
  rfl

theorem isDigit_of_mem_toDigits {n : Nat} {c : Char} (h : c ∈ Nat.toDigits 10 n) :
    isDigit c = true := by
  rw [isDigit_eq]
  exact Nat.isDigit_of_mem_toDigits (by decide) (by decide) h

theorem digitsValue_eq (ds : List Char) : digitsValue ds = Nat.ofDigitChars 10 ds 0 := by
  simp only [digitsValue, Nat.ofDigitChars, Nat.mul_comm]
  rfl

@[simp] theorem digitsValue_toDigits (n : Nat) : digitsValue (Nat.toDigits 10 n) = n := by
  rw [digitsValue_eq, Nat.ofDigitChars_ten_toDigits]

theorem digitsValue_append (l m : List Char) :
    digitsValue (l ++ m) = digitsValue l * 10 ^ m.length + digitsValue m := by
  rw [digitsValue_eq, digitsValue_eq, digitsValue_eq, Nat.ofDigitChars_append,
    Nat.ofDigitChars_eq_ofDigitChars_zero, Nat.mul_comm]

@[simp] theorem digitsValue_replicate_zero (k : Nat) : digitsValue (List.replicate k '0') = 0 := by
  rw [digitsValue_eq, Nat.ofDigitChars_replicate_zero, Nat.mul_zero]

theorem toDigits_eq_cons {n : Nat} (hn : n ≠ 0) :
    ∃ d ds, Nat.toDigits 10 n = d :: ds ∧ d ≠ '0' := by
  induction n using Nat.strong_induction_on with
  | _ n ih =>
    by_cases hSmall : n < 10
    · refine ⟨n.digitChar, [], Nat.toDigits_of_lt_base hSmall, ?_⟩
      interval_cases n <;> simp_all [Nat.digitChar]
    · obtain ⟨d, ds, hds, hd⟩ := ih (n / 10) (by omega) (by omega)
      refine ⟨d, ds ++ [Nat.digitChar (n % 10)], ?_, hd⟩
      rw [Nat.toDigits_of_base_le (by decide) (by omega), hds, List.cons_append]

theorem digitRun_of_drop {text : Array Char} {p : Nat} {ds rest : List Char}
    (h : text.toList.drop p = ds ++ rest) (hds : ∀ c ∈ ds, isDigit c = true)
    (hRest : NoDigitAhead rest) : digitRun text p = .ok ds (p + ds.length) := by
  have hFuel : ds.length ≤ text.size - p := by
    have hLength := congrArg List.length h
    rw [List.length_drop, Array.length_toList, List.length_append] at hLength
    omega
  have hStop := scanWhile_of_drop ds hds rest hRest p (text.size - p) h hFuel
  have hExtract : (text.extract p (p + ds.length)).toList = ds := by
    rw [Array.toList_extract, List.extract_eq_take_drop, h, Nat.add_sub_cancel_left,
      List.take_left]
  simp only [digitRun, bind_ok (read_run text p), bind_ok (get_run text p), hStop]
  rw [bind_ok (set_run text p _), pure_run, hExtract]

end Digits

section Parts

/-- The whole part of a number as the reader takes it: `0` alone, or digits with no leading
zero. -/
def WholeDigits (ip : List Char) : Prop :=
  ip = ['0'] ∨ ∃ d ds, ip = d :: ds ∧ isDigit d = true ∧ d ≠ '0' ∧ ∀ c ∈ ds, isDigit c = true

variable {text : Array Char} {p : Nat}

theorem wholePart_of_drop {ip rest : List Char} (hWhole : WholeDigits ip)
    (h : text.toList.drop p = ip ++ rest) (hRest : NoDigitAhead rest) :
    wholePart text p = .ok ip (p + ip.length) := by
  rcases hWhole with rfl | ⟨d, ds, rfl, hd, hZero, hds⟩
  · rw [wholePart, bind_ok (next_of_drop h)]
    simp only
    rw [bind_ok (peek_of_drop_head? (drop_succ_of_drop h))]
    cases rest with
    | nil => rfl
    | cons c tl =>
      simp only [List.append_eq, List.nil_append, List.head?_cons, hRest c rfl]
      rfl
  · rw [wholePart, bind_ok (next_of_drop h)]
    simp only [hd, if_true]
    rw [bind_ok (digitRun_of_drop (drop_succ_of_drop h) hds hRest), pure_run, List.length_cons,
      Nat.add_comm ds.length 1, Nat.add_assoc]

def fractionText : Option (List Char) → List Char
  | none => []
  | some fs => '.' :: fs

def exponentText : Option Int → List Char
  | none => []
  | some x => 'e' :: (if x < 0 then '-' else '+') :: Nat.toDigits 10 x.natAbs

theorem fractionPart_of_drop {fr : Option (List Char)} {after : List Char}
    (h : text.toList.drop p = fractionText fr ++ after)
    (hDigits : ∀ fs, fr = some fs → fs ≠ [] ∧ ∀ c ∈ fs, isDigit c = true)
    (hPoint : after.head? ≠ some '.') (hAfter : NoDigitAhead after) :
    fractionPart text p = .ok fr (p + (fractionText fr).length) := by
  cases fr with
  | none =>
    rw [fractionPart, bind_ok (peek_of_drop_head? h), fractionText, List.nil_append,
      if_neg hPoint]
    rfl
  | some fs =>
    obtain ⟨hNonempty, hfs⟩ := hDigits fs rfl
    rw [fractionText, List.cons_append] at h
    rw [fractionPart, bind_ok (peek_of_drop_head? h), List.head?_cons, if_pos rfl,
      bind_ok (bump_run text p), bind_ok (digitRun_of_drop (drop_succ_of_drop h) hfs hAfter)]
    simp only [List.isEmpty_eq_false_iff.mpr hNonempty, Bool.false_eq_true, if_false]
    rw [pure_run, fractionText, List.length_cons, Nat.add_comm fs.length 1, Nat.add_assoc]

theorem exponentPart_of_drop {ex : Option Int} {rest : List Char}
    (h : text.toList.drop p = exponentText ex ++ rest) (hRest : AfterValue rest) :
    exponentPart text p = .ok ex (p + (exponentText ex).length) := by
  cases ex with
  | none =>
    have hE : rest.head? ≠ some 'e' := hRest.head?_ne (by decide)
    have hUpper : rest.head? ≠ some 'E' := hRest.head?_ne (by decide)
    rw [exponentText, List.nil_append] at h
    rw [exponentPart, bind_ok (peek_of_drop_head? h), bind_ok (peek_of_drop_head? h),
      if_neg (by simp [hE, hUpper])]
    rfl
  | some x =>
    rw [exponentText, List.cons_append, List.cons_append] at h
    rw [exponentPart, bind_ok (peek_of_drop_head? h), bind_ok (peek_of_drop_head? h),
      List.head?_cons, if_pos (Or.inl rfl), bind_ok (bump_run text p),
      bind_ok (peek_of_drop_head? (drop_succ_of_drop h)), List.head?_cons]
    obtain ⟨d, ds, hDigits⟩ := List.exists_cons_of_ne_nil (Nat.toDigits_ne_nil (n := x.natAbs))
    have hd : isDigit d = true := isDigit_of_mem_toDigits (hDigits ▸ List.mem_cons_self)
    have hds : ∀ c ∈ ds, isDigit c = true :=
      fun c hc => isDigit_of_mem_toDigits (hDigits ▸ List.mem_cons_of_mem d hc)
    have hValue : digitsValue (d :: ds) = x.natAbs := hDigits ▸ digitsValue_toDigits x.natAbs
    have hAt := drop_succ_of_drop (drop_succ_of_drop h)
    rw [hDigits, List.cons_append] at hAt
    have hLength : p + (exponentText (some x)).length = p + 1 + 1 + 1 + ds.length := by
      simp only [exponentText, List.length_cons, hDigits]
      omega
    have hDigitRun := digitRun_of_drop (drop_succ_of_drop hAt) hds hRest.noDigitAhead
    rw [hLength]
    by_cases hx : x < 0
    · simp only [hx, if_true]
      rw [bind_ok (bump_run text (p + 1)), bind_ok (next_of_drop hAt)]
      simp only [hd, Bool.not_true, Bool.false_eq_true, if_false]
      rw [bind_ok hDigitRun, pure_run, hValue, show -(x.natAbs : Int) = x by omega]
    · simp only [hx, if_false]
      rw [bind_ok (bump_run text (p + 1)), bind_ok (next_of_drop hAt)]
      simp only [hd, Bool.not_true, Bool.false_eq_true, if_false]
      rw [bind_ok hDigitRun, pure_run, hValue, show (x.natAbs : Int) = x by omega]

theorem NoDigitAhead.fractionText {after : List Char} (h : NoDigitAhead after)
    (fr : Option (List Char)) : NoDigitAhead (fractionText fr ++ after) := by
  cases fr with
  | none => exact h
  | some fs => exact noDigitAhead_cons _ (by decide)

theorem NoDigitAhead.exponentText {rest : List Char} (h : NoDigitAhead rest) (ex : Option Int) :
    NoDigitAhead (exponentText ex ++ rest) := by
  cases ex with
  | none => exact h
  | some x => exact noDigitAhead_cons _ (by decide)

theorem head?_exponentText_ne {rest : List Char} (h : AfterValue rest) (ex : Option Int) :
    (exponentText ex ++ rest).head? ≠ some '.' := by
  cases ex with
  | none => exact h.head?_ne (by decide)
  | some x => simp [exponentText]

theorem wholeDigits_toDigits (n : Nat) : WholeDigits (Nat.toDigits 10 n) := by
  by_cases hn : n = 0
  · left
    rw [hn, Nat.toDigits_zero]
  · obtain ⟨d, ds, hds, hd⟩ := toDigits_eq_cons hn
    right
    refine ⟨d, ds, hds, isDigit_of_mem_toDigits (hds ▸ List.mem_cons_self), hd, fun c hc => ?_⟩
    exact isDigit_of_mem_toDigits (hds ▸ List.mem_cons_of_mem d hc)

theorem numberParts_of_drop {ip : List Char} {fr : Option (List Char)} {ex : Option Int}
    {rest : List Char} (hWhole : WholeDigits ip)
    (hFrac : ∀ fs, fr = some fs → fs ≠ [] ∧ ∀ c ∈ fs, isDigit c = true)
    (h : text.toList.drop p = ip ++ fractionText fr ++ exponentText ex ++ rest)
    (hRest : AfterValue rest) {β : Type} (k : List Char → Option (List Char) → Option Int → Scan β) :
    (do
      let intDigits ← wholePart
      let fraction ← fractionPart
      let exponent ← exponentPart
      k intDigits fraction exponent) text p =
      k ip fr ex text (p + (ip ++ fractionText fr ++ exponentText ex).length) := by
  rw [List.append_assoc, List.append_assoc] at h
  have hFracAt := drop_add_of_drop h
  have hExpAt := drop_add_of_drop hFracAt
  rw [bind_ok (wholePart_of_drop hWhole h
      ((hRest.noDigitAhead.exponentText ex).fractionText fr)),
    bind_ok (fractionPart_of_drop hFracAt hFrac (head?_exponentText_ne hRest ex)
      (hRest.noDigitAhead.exponentText ex)),
    bind_ok (exponentPart_of_drop hExpAt hRest)]
  simp only [List.length_append, Nat.add_assoc]

end Parts

/-- A numeral with a fraction or an exponent or both, as the reader takes it. -/
structure DecimalNumeral where
  whole : List Char
  fraction : Option (List Char)
  exponent : Option Int
  whole_digits : WholeDigits whole
  fraction_digits : ∀ fs, fraction = some fs → fs ≠ [] ∧ ∀ c ∈ fs, isDigit c = true
  decimal : fraction.isSome ∨ exponent.isSome

namespace DecimalNumeral

variable (n : DecimalNumeral)

def text : List Char := n.whole ++ fractionText n.fraction ++ exponentText n.exponent

def digits : Nat := digitsValue (n.whole ++ n.fraction.getD [])

def scale : Int := n.exponent.getD 0 - (n.fraction.getD []).length

theorem text_cons : ∃ d tl, n.text = d :: tl ∧ isDigit d = true := by
  rcases n.whole_digits with hZero | ⟨d, ds, hWhole, hd, -, -⟩
  · exact ⟨'0', _, by rw [text, hZero, List.singleton_append, List.cons_append], isDigit_zero⟩
  · exact ⟨d, _, by rw [text, hWhole, List.cons_append, List.cons_append], hd⟩

end DecimalNumeral

section Body

variable {text : Array Char} {p : Nat}

theorem numberBody_decimal (neg : Bool) (n : DecimalNumeral) {rest : List Char}
    (h : text.toList.drop p = n.text ++ rest) (hRest : AfterValue rest)
    (hFinite : ∀ s, (Number.decimal neg n.digits n.scale).toBinary64.classify ≠ .infinite s) :
    numberBody neg text p = .ok (.decimal neg n.digits n.scale) (p + n.text.length) := by
  rw [numberBody, numberParts_of_drop n.whole_digits n.fraction_digits h hRest]
  have hIs : (n.fraction.isSome || n.exponent.isSome) = true := by simpa using n.decimal
  have hCheck : ∀ s, (Number.decimal neg (digitsValue (n.whole ++ n.fraction.getD []))
      (n.exponent.getD 0 - (n.fraction.getD []).length)).toBinary64.classify ≠ .infinite s :=
    hFinite
  simp only [hIs, if_true]
  rfl

theorem numberBody_natural {n : Nat} {rest : List Char}
    (h : text.toList.drop p = Nat.toDigits 10 n ++ rest) (hRest : AfterValue rest)
    (hn : n ≤ u64Max) :
    numberBody false text p = .ok (.integer n) (p + (Nat.toDigits 10 n).length) := by
  have hText : text.toList.drop p =
      Nat.toDigits 10 n ++ fractionText none ++ exponentText none ++ rest := by
    rw [h, fractionText, exponentText, List.append_nil, List.append_nil]
  rw [numberBody, numberParts_of_drop (wholeDigits_toDigits n) (by simp) hText hRest]
  simp only [Option.isSome_none, Bool.or_false, Bool.false_eq_true, if_false,
    digitsValue_toDigits, hn, if_true, fractionText, exponentText, List.append_nil]
  rfl

def signText (neg : Bool) : List Char := if neg then ['-'] else []

theorem number_of_drop (neg : Bool) {body : List Char} {r : EStateM.Result Fault Nat Number}
    (h : text.toList.drop p = signText neg ++ body) (hFirst : body.head? ≠ some '-')
    (hBody : numberBody neg text (p + (signText neg).length) = r) : number text p = r := by
  cases neg with
  | false =>
    rw [signText, if_neg Bool.false_ne_true, List.nil_append] at h
    rw [number, bind_ok (peek_of_drop_head? h), if_neg hFirst]
    exact hBody
  | true =>
    rw [number, bind_ok (peek_of_drop_head? h)]
    simp only [signText, if_true, List.singleton_append, List.head?_cons]
    rw [bind_ok (bump_run text p)]
    exact hBody

end Body

theorem blank_eq_false_of_isDigit {c : Char} (h : isDigit c = true) : blank c = false := by
  rw [isDigit_eq, Char.isDigit_iff_toNat] at h
  simp only [blank, decide_eq_false_iff_not]
  rintro (rfl | rfl | rfl | rfl) <;> exact absurd h (by decide)

theorem reads_usize (fuel : Nat) {n : Nat} (hn : n ≤ usizeMax) :
    ReadsValue (shaped (fuel + 1) .usize) (Nat.toDigits 10 n) (.nat n) := by
  intro text p rest h hRest
  obtain ⟨d, ds, hDigits⟩ := List.exists_cons_of_ne_nil (Nat.toDigits_ne_nil (n := n) (b := 10))
  have hd : isDigit d = true := isDigit_of_mem_toDigits (hDigits ▸ List.mem_cons_self)
  have hAt : text.toList.drop p = d :: (ds ++ rest) := by rw [h, hDigits, List.cons_append]
  have hNumber : number text p = .ok (.integer n) (p + (Nat.toDigits 10 n).length) :=
    number_of_drop false (h.trans (List.nil_append _).symm)
      (by
        rw [hDigits, List.cons_append, List.head?_cons]
        rintro ⟨⟩
        exact absurd hd (by decide))
      (numberBody_natural h hRest hn)
  rw [shaped]
  apply place_of_ok
  rw [bind_ok (skipBlank_of_drop hAt (blank_eq_false_of_isDigit hd))]
  simp only [hd, or_true, if_true]
  rw [bind_ok hNumber]
  simp only [Number.toDatum, Int.natCast_nonneg, Int.toNat_natCast, hn, and_self, if_true]
  rfl

end Fiff.Json
