import Fiff.Json.Read
import Fiff.Json.Value
import Mathlib

/-!
# Reading JSON text piece by piece

A scan runs on the whole text from a character offset. Its lemmas here are stated for an offset
at which the text holds a given piece followed by any rest (`text.toList.drop p = piece ++
rest`): the scan then answers with the value the piece stands for and stops right after it. A
value of a document is read so whenever the text after it ends or goes on with a comma or a
closing bracket (`ReadsValue`, `AfterValue`); strings written by `quote` read back as the strings
they quote (`reads_string`), and a list of values written between brackets and commas reads back
as the list of their values (`reads_seq`).

The loops of the reader run a body once per character of the text; they are unrolled by
`forIn_range'_yield` and `forIn_range'_done`, and each loop is read by a lemma that takes what
one run of its body does as hypotheses.
-/

set_option autoImplicit false

namespace Fiff.Json

variable {α β σ : Type}

section Run

theorem bind_ok {x : Scan α} {f : α → Scan β} {text : Array Char} {p q : Nat} {a : α}
    (h : x text p = .ok a q) : (x >>= f) text p = f a text q := by
  show EStateM.bind (x text) (fun a => f a text) p = _
  simp only [EStateM.bind, h]

theorem seq_ok {x : Scan Unit} {y : Scan β} {text : Array Char} {p q : Nat}
    (h : x text p = .ok () q) : (x *> y) text p = y text q := by
  show (x >>= fun _ => y) text p = _
  rw [bind_ok h]

theorem read_run (text : Array Char) (p : Nat) : (read : Scan (Array Char)) text p = .ok text p :=
  rfl

theorem get_run (text : Array Char) (p : Nat) : (get : Scan Nat) text p = .ok p p := rfl

theorem set_run (text : Array Char) (p q : Nat) : (set q : Scan PUnit) text p = .ok () q := rfl

theorem pure_run (a : α) (text : Array Char) (p : Nat) : (pure a : Scan α) text p = .ok a p := rfl

theorem bump_run (text : Array Char) (p : Nat) : bump text p = .ok () (p + 1) := rfl

theorem peek_run (text : Array Char) (p : Nat) : peek text p = .ok text[p]? p := rfl

theorem getElem?_of_drop {text : Array Char} {p : Nat} {c : Char} {rest : List Char}
    (h : text.toList.drop p = c :: rest) : text[p]? = some c := by
  rw [← Array.getElem?_toList, ← List.head?_drop, h]
  rfl

theorem getElem?_of_drop_nil {text : Array Char} {p : Nat} (h : text.toList.drop p = []) :
    text[p]? = none := by
  rw [← Array.getElem?_toList, ← List.head?_drop, h]
  rfl

theorem drop_add_of_drop {text : Array Char} {p : Nat} {piece rest : List Char}
    (h : text.toList.drop p = piece ++ rest) :
    text.toList.drop (p + piece.length) = rest := by
  rw [← List.drop_drop, h, List.drop_left]

theorem drop_succ_of_drop {text : Array Char} {p : Nat} {c : Char} {rest : List Char}
    (h : text.toList.drop p = c :: rest) : text.toList.drop (p + 1) = rest :=
  @drop_add_of_drop text p [c] rest h

theorem peek_of_drop {text : Array Char} {p : Nat} {c : Char} {rest : List Char}
    (h : text.toList.drop p = c :: rest) : peek text p = .ok (some c) p := by
  rw [peek_run, getElem?_of_drop h]

theorem next_of_drop {text : Array Char} {p : Nat} {c : Char} {rest : List Char}
    (h : text.toList.drop p = c :: rest) : next text p = .ok (some c) (p + 1) := by
  rw [next, bind_ok (peek_run text p), getElem?_of_drop h]
  rfl

theorem place_of_ok {m : Scan α} {text : Array Char} {p q : Nat} {a : α}
    (h : m text p = .ok a q) : place m text p = .ok a q := by
  simp only [place, EStateM.run, bind, EStateM.bind, EStateM.get, h]
  rfl

theorem closing_of_ok {body : Scan α} {close : Scan Unit} {text : Array Char} {p q r : Nat}
    {a : α} (hBody : body text p = .ok a q) (hClose : close text q = .ok () r) :
    closing body close text p = .ok a r := by
  simp only [closing, EStateM.run, bind, EStateM.bind, EStateM.get, hBody, hClose]
  rfl

end Run

section Loop

theorem forIn_range (n : Nat) (b : σ) (f : Nat → σ → Scan (ForInStep σ)) :
    forIn [:n] b f = forIn (List.range' 0 n) b f := by
  rw [Std.Legacy.Range.forIn_eq_forIn_range']
  simp [Std.Legacy.Range.size]

theorem forIn_range'_yield {f : Nat → σ → Scan (ForInStep σ)} {text : Array Char}
    {a k p q : Nat} {b b' : σ} (h : f a b text p = .ok (.yield b') q) :
    forIn (List.range' a (k + 1)) b f text p = forIn (List.range' (a + 1) k) b' f text q := by
  rw [List.range'_succ, List.forIn_cons, bind_ok h]

theorem forIn_range'_done {f : Nat → σ → Scan (ForInStep σ)} {text : Array Char}
    {a k p q : Nat} {b b' : σ} (h : f a b text p = .ok (.done b') q) :
    forIn (List.range' a (k + 1)) b f text p = .ok b' q := by
  rw [List.range'_succ, List.forIn_cons, bind_ok h]
  rfl

end Loop

section Blank

def blank (c : Char) : Bool := decide (c = ' ' ∨ c = '\n' ∨ c = '\t' ∨ c = '\r')

theorem scanWhile_of_drop_cons {text : Array Char} {pred : Char → Bool} {i : Nat} {c : Char}
    {rest : List Char} (h : text.toList.drop i = c :: rest) (hc : pred c = false) (fuel : Nat) :
    scanWhile text pred i fuel = i := by
  cases fuel with
  | zero => rfl
  | succ fuel => simp [scanWhile, getElem?_of_drop h, hc]

theorem scanWhile_of_drop_nil {text : Array Char} {pred : Char → Bool} {i : Nat}
    (h : text.toList.drop i = []) (fuel : Nat) : scanWhile text pred i fuel = i := by
  cases fuel with
  | zero => rfl
  | succ fuel => simp [scanWhile, getElem?_of_drop_nil h]

theorem scanWhile_of_drop {text : Array Char} {pred : Char → Bool} (ds : List Char)
    (hds : ∀ c ∈ ds, pred c = true) (rest : List Char)
    (hRest : ∀ c ∈ rest.head?, pred c = false) :
    ∀ (i fuel : Nat), text.toList.drop i = ds ++ rest → ds.length ≤ fuel →
      scanWhile text pred i fuel = i + ds.length := by
  induction ds with
  | nil =>
    intro i fuel h _
    cases rest with
    | nil => exact scanWhile_of_drop_nil h fuel
    | cons c rest => exact scanWhile_of_drop_cons h (hRest c rfl) fuel
  | cons d ds ih =>
    intro i fuel h hFuel
    obtain ⟨fuel, rfl⟩ : ∃ k, fuel = k + 1 := ⟨fuel - 1, by simp at hFuel; omega⟩
    have hd : pred d = true := hds d List.mem_cons_self
    have hNext := ih (fun c hc => hds c (List.mem_cons_of_mem d hc)) (i + 1) fuel
      (drop_succ_of_drop h) (by simp at hFuel; omega)
    simp only [scanWhile, getElem?_of_drop h, hd, if_true, hNext, List.length_cons]
    omega

theorem skipBlank_run (text : Array Char) (p : Nat) :
    skipBlank text p = .ok text[scanWhile text blank p (text.size - p)]?
      (scanWhile text blank p (text.size - p)) := rfl

theorem skipBlank_of_drop {text : Array Char} {p : Nat} {c : Char} {rest : List Char}
    (h : text.toList.drop p = c :: rest) (hc : blank c = false) :
    skipBlank text p = .ok (some c) p := by
  rw [skipBlank_run, scanWhile_of_drop_cons h hc, getElem?_of_drop h]

theorem skipBlank_of_drop_nil {text : Array Char} {p : Nat} (h : text.toList.drop p = []) :
    skipBlank text p = .ok none p := by
  rw [skipBlank_run, scanWhile_of_drop_nil h, getElem?_of_drop_nil h]

end Blank

/-- The text after a value: it ends, or goes on with a comma or a closing bracket. -/
def AfterValue (rest : List Char) : Prop :=
  ∀ c ∈ rest.head?, c = ',' ∨ c = ']' ∨ c = '\x7d'

theorem afterValue_nil : AfterValue [] := by
  intro c hc
  cases hc

theorem afterValue_cons {c : Char} (rest : List Char) (hc : c = ',' ∨ c = ']' ∨ c = '\x7d') :
    AfterValue (c :: rest) := by
  intro d hd
  cases hd
  exact hc

theorem afterValue_commas {β : Type} (piece : β → List Char) (xs : List β) {c : Char}
    (rest : List Char) (hc : c = ']' ∨ c = '\x7d') :
    AfterValue ((xs.flatMap fun y => ',' :: piece y) ++ c :: rest) := by
  cases xs with
  | nil => exact afterValue_cons rest (Or.inr hc)
  | cons y ys => exact afterValue_cons _ (Or.inl rfl)

/-- A scan reads `piece` as `a`: wherever the text holds the piece and then something a value
may be followed by, the scan answers `a` and stops right after the piece. -/
def ReadsValue (m : Scan α) (piece : List Char) (a : α) : Prop :=
  ∀ (text : Array Char) (p : Nat) (rest : List Char), text.toList.drop p = piece ++ rest →
    AfterValue rest → m text p = .ok a (p + piece.length)

section Strings

def escaped (s : List Char) : List Char := s.flatMap fun c => (escapeChar c).toList

theorem toList_quote (s : String) : (quote s).toList = '"' :: escaped s.toList ++ ['"'] := by
  simp [quote, escaped, String.toList_join, List.flatMap_def, Function.comp_def]

theorem length_escapeChar_pos (c : Char) : 0 < (escapeChar c).toList.length := by
  unfold escapeChar
  repeat' split
  all_goals simp [Char.toString]

theorem length_le_escaped (s : List Char) : s.length ≤ (escaped s).length := by
  induction s with
  | nil => simp [escaped]
  | cons c s ih =>
    have hc := length_escapeChar_pos c
    simp only [escaped, List.flatMap_cons, List.length_append, List.length_cons] at ih ⊢
    omega

def hexLower (n : Nat) : Char := if n < 10 then Char.ofNat (48 + n) else Char.ofNat (87 + n)

theorem hexDigits_control : ∀ n : Fin 32,
    (String.ofList ['0', '0', hexLower (n.val / 16), hexLower (n.val % 16)]).utf8ByteSize = 4 ∧
    (['0', '0', hexLower (n.val / 16), hexLower (n.val % 16)].mapM hexDigit).map
      (fun ds => ds.foldl (fun v d => v * 16 + d) 0) = some n.val := by
  decide

theorem hexEscape_of_drop {text : Array Char} {p : Nat} {ds rest : List Char}
    (h : text.toList.drop p = ds ++ rest) (hLength : ds.length = 4)
    (hSize : (String.ofList ds).utf8ByteSize = 4) {v : Nat}
    (hDigits : (ds.mapM hexDigit).map (fun ds => ds.foldl (fun v d => v * 16 + d) 0) = some v) :
    hexEscape text p = .ok v (p + 4) := by
  have hExtract : (text.extract p (p + 4)).toList = ds := by
    rw [Array.toList_extract, List.extract_eq_take_drop, h, Nat.add_sub_cancel_left,
      List.take_left' hLength]
  obtain ⟨us, hus, rfl⟩ := Option.map_eq_some_iff.mp hDigits
  simp only [hexEscape, bind_ok (read_run text p), bind_ok (get_run text p)]
  simp only [hExtract, hSize, Nat.lt_irrefl, if_false, List.take_of_length_le (Nat.le_of_eq hLength),
    hus]
  rfl

theorem forIn_escaped
    {f : Nat → Option String × List Char → Scan (ForInStep (Option String × List Char))}
    {text : Array Char}
    (hStep : ∀ a out c p rest, text.toList.drop p = (escapeChar c).toList ++ rest →
      f a (none, out) text p = .ok (.yield (none, c :: out)) (p + (escapeChar c).toList.length))
    (hEnd : ∀ a out p rest, text.toList.drop p = '"' :: rest →
      f a (none, out) text p = .ok (.done (some (String.ofList out.reverse), out)) (p + 1))
    (v : List Char) : ∀ (out : List Char) (p k a : Nat) (rest : List Char), v.length < k →
      text.toList.drop p = escaped v ++ '"' :: rest →
      forIn (List.range' a k) (none, out) f text p =
        .ok (some (String.ofList (out.reverse ++ v)), v.reverse ++ out)
          (p + (escaped v).length + 1) := by
  induction v with
  | nil =>
    intro out p k a rest hk h
    obtain ⟨k, rfl⟩ : ∃ k', k = k' + 1 := ⟨k - 1, by simp at hk; omega⟩
    simpa [escaped] using forIn_range'_done (hEnd a out p rest (by simpa [escaped] using h))
  | cons c v ih =>
    intro out p k a rest hk h
    obtain ⟨k, rfl⟩ : ∃ k', k = k' + 1 := ⟨k - 1, by simp at hk; omega⟩
    have hc : text.toList.drop p = (escapeChar c).toList ++ (escaped v ++ '"' :: rest) := by
      simpa [escaped] using h
    rw [forIn_range'_yield (hStep a out c p _ hc),
      ih (c :: out) _ k (a + 1) rest (by simp at hk; omega) (drop_add_of_drop hc)]
    simp [escaped, Nat.add_assoc]

theorem stringBody_of_drop {text : Array Char} {p : Nat} {s : String} {rest : List Char}
    (h : text.toList.drop p = escaped s.toList ++ '"' :: rest) :
    stringBody text p = .ok s (p + (escaped s.toList).length + 1) := by
  have hBound : s.toList.length < text.size + 1 := by
    have hLength := congrArg List.length h
    have hEscaped := length_le_escaped s.toList
    simp only [List.length_drop, Array.length_toList, List.length_append, List.length_cons]
      at hLength
    omega
  unfold stringBody
  rw [bind_ok (read_run text p)]
  dsimp only
  rw [forIn_range, bind_ok (forIn_escaped ?hStep ?hEnd s.toList [] p (text.size + 1) 0 rest
    hBound h)]
  · simp only [List.reverse_nil, List.nil_append, String.ofList_toList]
    rfl
  case hEnd =>
    intro a out q rest hq
    dsimp only
    rw [bind_ok (next_of_drop hq)]
    rfl
  case hStep =>
    intro a out c q rest hq
    dsimp only
    by_cases hShort : c = '"' ∨ c = '\\' ∨ c = '\n' ∨ c = '\r' ∨ c = '\t' ∨ c = '\x08' ∨
      c = '\x0c'
    · rcases hShort with rfl | rfl | rfl | rfl | rfl | rfl | rfl <;>
      · simp only [escapeChar] at hq ⊢
        simp at hq ⊢
        rw [bind_ok (next_of_drop hq)]
        simp only
        rw [bind_ok (next_of_drop (drop_succ_of_drop hq))]
        rfl
    simp only [not_or] at hShort
    obtain ⟨hQuote, hBackslash, hNewline, hReturn, hTab, hBack, hFeed⟩ := hShort
    by_cases hControl : c.toNat < 32
    · have hEsc : (escapeChar c).toList =
          ['\\', 'u', '0', '0', hexLower (c.toNat / 16), hexLower (c.toNat % 16)] := by
        simp [escapeChar, hQuote, hBackslash, hNewline, hReturn, hTab, hBack, hFeed, hControl,
          hexLower]
      rw [hEsc] at hq ⊢
      obtain ⟨hSize, hDigits⟩ := hexDigits_control ⟨c.toNat, hControl⟩
      have hHex := hexEscape_of_drop (drop_succ_of_drop (drop_succ_of_drop hq)) rfl hSize hDigits
      rw [bind_ok (next_of_drop hq)]
      simp only
      rw [bind_ok (next_of_drop (drop_succ_of_drop hq))]
      simp only
      rw [bind_ok hHex]
      simp only [show ¬ (56320 ≤ c.toNat ∧ c.toNat < 57344) by omega,
        show ¬ (55296 ≤ c.toNat ∧ c.toNat < 56320) by omega, if_false, Char.ofNat_toNat]
      rfl
    · have hEsc : (escapeChar c).toList = [c] := by
        simp [escapeChar, hQuote, hBackslash, hNewline, hReturn, hTab, hBack, hFeed, hControl,
          Char.toString]
      rw [hEsc] at hq ⊢
      rw [bind_ok (next_of_drop hq)]
      simp only [hControl, if_false]
      rfl

theorem reads_string (fuel : Nat) (s : String) :
    ReadsValue (shaped (fuel + 1) .string) (quote s).toList (.string s) := by
  intro text p rest h _
  rw [toList_quote] at h
  have hOpen : text.toList.drop p = '"' :: (escaped s.toList ++ '"' :: rest) := by simpa using h
  rw [shaped]
  apply place_of_ok
  rw [bind_ok (skipBlank_of_drop hOpen rfl)]
  simp only
  rw [bind_ok (bump_run text p), bind_ok (stringBody_of_drop (drop_succ_of_drop hOpen)),
    toList_quote]
  simp only [List.length_cons, List.length_append, List.length_nil]
  rw [pure_run]
  congr 1
  omega

end Strings

section Lists

/-- A piece starts with a character that opens a value: not a blank, a comma or a closing
bracket. -/
def OpensValue (piece : List Char) : Prop :=
  ∃ c tail, piece = c :: tail ∧ blank c = false ∧ c ≠ ',' ∧ c ≠ ']'

theorem OpensValue.length_pos {piece : List Char} (h : OpensValue piece) : 0 < piece.length := by
  obtain ⟨c, tail, rfl, -⟩ := h
  simp

theorem nextItem_of_close {first : Bool} {item : Scan α} {text : Array Char} {p : Nat}
    {rest : List Char} (h : text.toList.drop p = ']' :: rest) :
    nextItem first item text p = .ok none p := by
  unfold nextItem
  rw [bind_ok (skipBlank_of_drop h rfl)]
  rfl

theorem nextItem_first {item : Scan α} {text : Array Char} {p q : Nat} {piece rest : List Char}
    {x : α} (h : text.toList.drop p = piece ++ rest) (hOpens : OpensValue piece)
    (hItem : item text p = .ok x q) : nextItem true item text p = .ok (some x) q := by
  obtain ⟨c, tail, rfl, hBlank, hComma, hClose⟩ := hOpens
  unfold nextItem
  rw [bind_ok (skipBlank_of_drop h hBlank)]
  simp only [Bool.not_true, Bool.false_eq_true, if_false]
  rw [bind_ok hItem]
  rfl

theorem nextItem_next {item : Scan α} {text : Array Char} {p q : Nat} {piece rest : List Char}
    {x : α} (h : text.toList.drop p = ',' :: piece ++ rest) (hOpens : OpensValue piece)
    (hItem : item text (p + 1) = .ok x q) : nextItem false item text p = .ok (some x) q := by
  obtain ⟨c, tail, rfl, hBlank, hComma, hClose⟩ := hOpens
  unfold nextItem
  rw [bind_ok (skipBlank_of_drop h rfl)]
  simp only [Bool.not_false, if_true]
  rw [bind_ok (bump_run text p), bind_ok (skipBlank_of_drop (drop_succ_of_drop h) hBlank)]
  simp only
  rw [bind_ok hItem]
  rfl

theorem endList_of_drop {text : Array Char} {p : Nat} {rest : List Char}
    (h : text.toList.drop p = ']' :: rest) : endList text p = .ok () (p + 1) := by
  unfold endList
  rw [bind_ok (skipBlank_of_drop h rfl)]
  rfl

theorem intercalate_comma_cons {β : Type} (piece : β → List Char) (x : β) (xs : List β) :
    [','].intercalate ((x :: xs).map piece) = piece x ++ xs.flatMap fun y => ',' :: piece y := by
  induction xs generalizing x with
  | nil => simp
  | cons y ys ih =>
    rw [List.map_cons, List.map_cons, List.intercalate_cons_cons, ← List.map_cons, ih y]
    simp

theorem length_le_intercalate_comma {β : Type} (piece : β → List Char) (xs : List β) :
    xs.length ≤ ([','].intercalate (xs.map piece)).length + 1 := by
  cases xs with
  | nil => simp
  | cons x xs =>
    have hCommas : xs.length ≤ (xs.flatMap fun y => ',' :: piece y).length := by
      induction xs with
      | nil => simp
      | cons y ys ih =>
        simp only [List.flatMap_cons, List.length_append, List.length_cons] at ih ⊢
        omega
    rw [intercalate_comma_cons, List.length_append, List.length_cons]
    omega

section Items

variable {β : Type} {item : Scan α} {piece : β → List Char} {val : β → α} {text : Array Char}
  {f : Nat → Option (List α) × Array α → Scan (ForInStep (Option (List α) × Array α))}
  (hStep : ∀ a out p q x, nextItem out.isEmpty item text p = .ok (some x) q →
    f a (none, out) text p = .ok (.yield (none, out.push x)) q)
  (hEnd : ∀ a out p, nextItem out.isEmpty item text p = .ok none p →
    f a (none, out) text p = .ok (.done (some out.toList, out)) p)
include hStep hEnd

theorem forIn_items_after (ys : List β)
    (hys : ∀ y ∈ ys, ReadsValue item (piece y) (val y) ∧ OpensValue (piece y)) :
    ∀ (out : Array α) (p k a : Nat) (rest : List Char), out.isEmpty = false → ys.length < k →
      text.toList.drop p = (ys.flatMap fun y => ',' :: piece y) ++ ']' :: rest →
      forIn (List.range' a k) (none, out) f text p =
        .ok (some (out.toList ++ ys.map val), (out.toList ++ ys.map val).toArray)
          (p + (ys.flatMap fun y => ',' :: piece y).length) := by
  induction ys with
  | nil =>
    intro out p k a rest _ hk h
    obtain ⟨k, rfl⟩ : ∃ k', k = k' + 1 := ⟨k - 1, by simp at hk; omega⟩
    simpa using forIn_range'_done (hEnd a out p (nextItem_of_close (by simpa using h)))
  | cons y ys ih =>
    intro out p k a rest hOut hk h
    obtain ⟨k, rfl⟩ : ∃ k', k = k' + 1 := ⟨k - 1, by simp at hk; omega⟩
    obtain ⟨hRead, hOpens⟩ := hys y List.mem_cons_self
    have hy : text.toList.drop p =
        ',' :: piece y ++ ((ys.flatMap fun y => ',' :: piece y) ++ ']' :: rest) := by
      simpa using h
    have hItem := hRead text (p + 1) _ (drop_succ_of_drop hy)
      (afterValue_commas piece ys rest (Or.inl rfl))
    have hNext := nextItem_next hy hOpens hItem
    rw [forIn_range'_yield (hStep a out p _ _ (by rw [hOut]; exact hNext))]
    have hLoop := ih (fun z hz => hys z (List.mem_cons_of_mem y hz)) (out.push (val y))
      (p + 1 + (piece y).length) k (a + 1) rest (by simp) (by simp at hk; omega)
      (by
        have hRest := @drop_add_of_drop _ _ (',' :: piece y) _ hy
        rwa [List.length_cons, Nat.add_comm (piece y).length 1, ← Nat.add_assoc] at hRest)
    have hValues : (out.push (val y)).toList ++ ys.map val = out.toList ++ (y :: ys).map val := by
      simp
    have hPos : p + 1 + (piece y).length + (ys.flatMap fun y => ',' :: piece y).length =
        p + ((y :: ys).flatMap fun y => ',' :: piece y).length := by
      simp only [List.flatMap_cons, List.length_append, List.length_cons]
      omega
    rw [hLoop, hValues, hPos]

theorem forIn_items (xs : List β)
    (hxs : ∀ y ∈ xs, ReadsValue item (piece y) (val y) ∧ OpensValue (piece y))
    (p k : Nat) (rest : List Char) (hk : xs.length < k)
    (h : text.toList.drop p = [','].intercalate (xs.map piece) ++ ']' :: rest) :
    forIn (List.range' 0 k) (none, #[]) f text p =
      .ok (some (xs.map val), (xs.map val).toArray)
        (p + ([','].intercalate (xs.map piece)).length) := by
  obtain ⟨k, rfl⟩ : ∃ k', k = k' + 1 := ⟨k - 1, by omega⟩
  cases xs with
  | nil =>
    simpa using forIn_range'_done (hEnd 0 #[] p (nextItem_of_close (by simpa using h)))
  | cons x xs =>
    obtain ⟨hRead, hOpens⟩ := hxs x List.mem_cons_self
    rw [intercalate_comma_cons] at h ⊢
    have hx : text.toList.drop p =
        piece x ++ ((xs.flatMap fun y => ',' :: piece y) ++ ']' :: rest) := by
      simpa using h
    have hNext := nextItem_first hx hOpens
      (hRead text p _ hx (afterValue_commas piece xs rest (Or.inl rfl)))
    rw [forIn_range'_yield (hStep 0 #[] p _ _ hNext)]
    rw [forIn_items_after hStep hEnd xs (fun z hz => hxs z (List.mem_cons_of_mem x hz))
      (#[].push (val x)) _ k 1 rest (by simp) (by simp at hk; omega) (drop_add_of_drop hx)]
    simp [Nat.add_assoc]

end Items

theorem reads_list {β : Type} {item : Scan α} {piece : β → List Char} {val : β → α}
    (xs : List β) (hxs : ∀ y ∈ xs, ReadsValue item (piece y) (val y) ∧ OpensValue (piece y)) :
    ReadsValue (list item) ('[' :: [','].intercalate (xs.map piece) ++ [']']) (xs.map val) := by
  intro text p rest h _
  have hOpen : text.toList.drop p = '[' :: ([','].intercalate (xs.map piece) ++ ']' :: rest) := by
    simpa using h
  have hItems := drop_succ_of_drop hOpen
  have hBound : xs.length < text.size + 1 := by
    have hLength := congrArg List.length hOpen
    have hItemCount := length_le_intercalate_comma piece xs
    simp only [List.length_drop, Array.length_toList, List.length_cons, List.length_append]
      at hLength
    omega
  unfold list
  rw [bind_ok (skipBlank_of_drop hOpen rfl)]
  simp only
  rw [bind_ok (bump_run text p), show p + ('[' :: [','].intercalate (xs.map piece) ++ [']']).length =
    p + 1 + ([','].intercalate (xs.map piece)).length + 1 by simp; omega]
  refine closing_of_ok ?_
    (endList_of_drop (@drop_add_of_drop _ _ ([','].intercalate (xs.map piece)) _ hItems))
  rw [bind_ok (read_run text (p + 1))]
  rw [forIn_range, bind_ok (forIn_items ?hStep ?hEnd xs hxs (p + 1) (text.size + 1) rest hBound
    hItems)]
  · rfl
  case hStep =>
    intro a out q q' x hNext
    dsimp only
    rw [bind_ok hNext]
    rfl
  case hEnd =>
    intro a out q hNext
    dsimp only
    rw [bind_ok hNext]
    rfl

theorem reads_seq {β : Type} (fuel : Nat) (inner : Shape) {piece : β → List Char}
    {val : β → Datum} (xs : List β)
    (hxs : ∀ y ∈ xs, ReadsValue (shaped fuel inner) (piece y) (val y) ∧ OpensValue (piece y)) :
    ReadsValue (shaped (fuel + 1) (.seq inner)) ('[' :: [','].intercalate (xs.map piece) ++ [']'])
      (.list (xs.map val)) := by
  intro text p rest h hAfter
  rw [shaped]
  apply place_of_ok
  rw [bind_ok (reads_list xs hxs text p rest h hAfter)]
  rfl

end Lists

end Fiff.Json
