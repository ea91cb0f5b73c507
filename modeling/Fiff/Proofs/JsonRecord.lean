import Fiff.Proofs.JsonScan
import Mathlib

/-!
# Records read from JSON objects

An object whose members name a record's fields in order, each once and with a value its field's
shape reads, is read as the list of those values. The member loop holds one optional value per
field; reading member `i` fills slot `i`, which the loop finds by the member's name, so distinct
names keep every slot filled exactly once and the closing brace completes the record with
nothing left to fall back on.
-/

set_option autoImplicit false

namespace Fiff.Json

def memberText (key : String) (value : List Char) : List Char := (quote key).toList ++ ':' :: value

abbrev Member := Field × List Char × Datum

def heldValues (pre post : List Member) : List (Option Datum) :=
  pre.map (fun m => some m.2.2) ++ post.map fun _ => none

theorem getD_heldValues (pre post : List Member) (m : Member) :
    (heldValues pre (m :: post)).getD pre.length none = none := by
  simp [heldValues, List.getD_eq_getElem?_getD]

theorem set_heldValues (pre post : List Member) (m : Member) :
    (heldValues pre (m :: post)).set pre.length (some m.2.2) = heldValues (pre ++ [m]) post := by
  simp [heldValues, List.set_append_right]

theorem fieldIndex_of_nodup {r : Record} {pre post : List Member} {m : Member}
    (hFields : r.fields = (pre ++ m :: post).map (·.1))
    (hNames : ((pre ++ m :: post).map (·.1.name)).Nodup) :
    fieldIndex r m.1.name = some pre.length := by
  have hBefore : ∀ x ∈ pre, x.1.name ≠ m.1.name := by
    intro x hx hEq
    rw [List.map_append, List.map_cons, List.nodup_append] at hNames
    exact hNames.2.2 _ (List.mem_map_of_mem hx) _ List.mem_cons_self hEq
  rw [fieldIndex, hFields, List.map_append, List.map_cons, List.findIdx?_append]
  have hNone : (pre.map (·.1)).findIdx? (·.name == m.1.name) = none := by
    rw [List.findIdx?_eq_none_iff]
    intro f hf
    obtain ⟨x, hx, rfl⟩ := List.mem_map.mp hf
    simpa using hBefore x hx
  simp [hNone, List.findIdx?_cons]

section Member

variable {text : Array Char} {p : Nat}

theorem memberKey_of_drop {s : String} {rest : List Char}
    (h : text.toList.drop p = (quote s).toList ++ rest) :
    memberKey (some '"') text p = .ok s (p + (quote s).toList.length) := by
  rw [toList_quote] at h ⊢
  have hBody : text.toList.drop (p + 1) = escaped s.toList ++ '"' :: rest :=
    drop_succ_of_drop (c := '"') (by simpa using h)
  rw [memberKey, bind_ok (bump_run text p), stringBody_of_drop hBody]
  simp only [List.length_cons, List.length_append, List.length_nil]
  exact congrArg (EStateM.Result.ok _) (by omega)

theorem memberColon_of_drop {rest : List Char} (h : text.toList.drop p = ':' :: rest) :
    memberColon text p = .ok () (p + 1) := by
  unfold memberColon
  rw [bind_ok (skipBlank_of_drop h rfl)]
  rfl

theorem memberValue_of_drop {fuel : Nat} {r : Record} {values : List (Option Datum)}
    {key : String} {i : Nat} {piece rest : List Char} {v : Datum}
    (hIndex : fieldIndex r key = some i) (hFree : values.getD i none = none)
    (hRead : ReadsValue (shaped fuel (r.fields.getD i ⟨"", .bool, none⟩).shape) piece v)
    (h : text.toList.drop p = ':' :: piece ++ rest) (hAfter : AfterValue rest) :
    memberValue fuel r values key text p =
      .ok (values.set i (some v)) (p + 1 + piece.length) := by
  have hValue := hRead text (p + 1) rest (drop_succ_of_drop h) hAfter
  rw [memberValue]
  simp only [hIndex, hFree, Option.isSome_none, Bool.false_eq_true, if_false]
  rw [bind_ok (memberColon_of_drop h), bind_ok hValue]
  rfl

theorem member_of_drop {fuel : Nat} {r : Record} {values : List (Option Datum)}
    {key : String} {i : Nat} {piece rest : List Char} {v : Datum}
    (hIndex : fieldIndex r key = some i) (hFree : values.getD i none = none)
    (hRead : ReadsValue (shaped fuel (r.fields.getD i ⟨"", .bool, none⟩).shape) piece v)
    (h : text.toList.drop p = memberText key piece ++ rest) (hAfter : AfterValue rest) :
    (do
      let key ← memberKey (some '"')
      let values ← memberValue fuel r values key
      pure (ForInStep.yield (none, values, false)) :
        Scan (ForInStep (Option (List Datum) × List (Option Datum) × Bool))) text p =
      .ok (.yield (none, values.set i (some v), false)) (p + (memberText key piece).length) := by
  have hKey : text.toList.drop p = (quote key).toList ++ (':' :: piece ++ rest) := by
    simpa [memberText] using h
  rw [bind_ok (memberKey_of_drop hKey),
    bind_ok (memberValue_of_drop hIndex hFree hRead (drop_add_of_drop hKey) hAfter), pure_run]
  simp only [memberText, List.length_append, List.length_cons]
  exact congrArg (EStateM.Result.ok _) (by omega)

end Member

theorem complete_filled (name : String) (text : Array Char) (p : Nat) :
    ∀ (fs : List Field) (vs : List Datum), fs.length = vs.length →
      complete ⟨name, fs⟩ (vs.map some) text p = .ok vs p
  | [], [], _ => rfl
  | f :: fs, v :: vs, hLength => by
    have ih := complete_filled name text p fs vs (by simpa using hLength)
    unfold complete at ih ⊢
    rw [List.map_cons, List.zip_cons_cons, List.mapM_cons, bind_ok (pure_run v text p),
      bind_ok ih]
    rfl

theorem complete_heldValues {r : Record} {ms : List Member} (hFields : r.fields = ms.map (·.1))
    (text : Array Char) (p : Nat) :
    complete r (heldValues ms []) text p = .ok (ms.map (·.2.2)) p := by
  obtain ⟨name, fs⟩ := r
  have hSome : heldValues ms [] = (ms.map (·.2.2)).map some := by simp [heldValues]
  rw [hSome]
  exact complete_filled name text p fs _ (by simp [show fs = ms.map (·.1) from hFields])

section MemberLoop

variable {text : Array Char} {ms : List Member}
  {f : Nat → Option (List Datum) × List (Option Datum) × Bool →
    Scan (ForInStep (Option (List Datum) × List (Option Datum) × Bool))}
  (hStep : ∀ a pre m post q rest, ms = pre ++ m :: post →
    text.toList.drop q = (if pre = [] then [] else [',']) ++ memberText m.1.name m.2.1 ++ rest →
    AfterValue rest →
    f a (none, heldValues pre (m :: post), decide (pre = [])) text q =
      .ok (.yield (none, heldValues (pre ++ [m]) post, false))
        (q + ((if pre = [] then [] else [',']) ++ memberText m.1.name m.2.1).length))
  (hEnd : ∀ a first q rest, text.toList.drop q = '\x7d' :: rest →
    f a (none, heldValues ms [], first) text q =
      .ok (.done (some (ms.map (·.2.2)), heldValues ms [], first)) q)
include hStep hEnd

theorem forIn_members_after (post : List Member) :
    ∀ (pre : List Member) (q k a : Nat) (rest : List Char), ms = pre ++ post → pre ≠ [] →
      post.length < k →
      text.toList.drop q = (post.flatMap fun m => ',' :: memberText m.1.name m.2.1) ++ '\x7d' :: rest →
      forIn (List.range' a k) (none, heldValues pre post, false) f text q =
        .ok (some (ms.map (·.2.2)), heldValues ms [], false)
          (q + (post.flatMap fun m => ',' :: memberText m.1.name m.2.1).length) := by
  induction post with
  | nil =>
    intro pre q k a rest hms _ hk h
    obtain ⟨k, rfl⟩ : ∃ k', k = k' + 1 := ⟨k - 1, by simp at hk; omega⟩
    rw [List.append_nil] at hms
    subst hms
    simpa using forIn_range'_done (hEnd a false q rest (by simpa using h))
  | cons m post ih =>
    intro pre q k a rest hms hPre hk h
    obtain ⟨k, rfl⟩ : ∃ k', k = k' + 1 := ⟨k - 1, by simp at hk; omega⟩
    have hm : text.toList.drop q = (if pre = [] then [] else [',']) ++ memberText m.1.name m.2.1 ++
        ((post.flatMap fun m => ',' :: memberText m.1.name m.2.1) ++ '\x7d' :: rest) := by
      simpa [hPre] using h
    have hAfter := afterValue_commas (fun m : Member => memberText m.1.name m.2.1) post rest
      (Or.inr rfl)
    have hFirst : decide (pre = []) = false := by simpa using hPre
    rw [← hFirst, forIn_range'_yield (hStep a pre m post q _ hms hm hAfter)]
    have hLoop := ih (pre ++ [m]) _ k (a + 1) rest (by simp [hms]) (by simp)
      (by simp at hk; omega) (drop_add_of_drop hm)
    rw [hLoop]
    simp only [hPre, if_false, List.flatMap_cons, List.length_append, List.length_cons,
      List.length_nil]
    exact congrArg (EStateM.Result.ok _) (by omega)

theorem forIn_members (q k : Nat) (rest : List Char) (hk : ms.length < k)
    (h : text.toList.drop q = [','].intercalate (ms.map fun m => memberText m.1.name m.2.1) ++
      '\x7d' :: rest) :
    forIn (List.range' 0 k) (none, heldValues [] ms, true) f text q =
      .ok (some (ms.map (·.2.2)), heldValues ms [], decide (ms = []))
        (q + ([','].intercalate (ms.map fun m => memberText m.1.name m.2.1)).length) := by
  obtain ⟨k, rfl⟩ : ∃ k', k = k' + 1 := ⟨k - 1, by omega⟩
  cases hms : ms with
  | nil =>
    rw [hms] at hEnd h
    simpa using forIn_range'_done (hEnd 0 true q rest (by simpa using h))
  | cons m post =>
    rw [hms, intercalate_comma_cons] at h
    rw [intercalate_comma_cons]
    have hm : text.toList.drop q = (if ([] : List Member) = [] then [] else [',']) ++
        memberText m.1.name m.2.1 ++
          ((post.flatMap fun m => ',' :: memberText m.1.name m.2.1) ++ '\x7d' :: rest) := by
      simpa using h
    have hAfter := afterValue_commas (fun m : Member => memberText m.1.name m.2.1) post rest
      (Or.inr rfl)
    rw [show true = decide (([] : List Member) = []) from rfl,
      forIn_range'_yield (hStep 0 [] m post q _ (by rw [hms, List.nil_append]) hm hAfter)]
    have hLoop := forIn_members_after hStep hEnd post [m] _ k 1 rest (by rw [hms]; rfl)
      (List.cons_ne_nil m []) (by simp [hms] at hk; omega) (drop_add_of_drop hm)
    rw [List.nil_append, hLoop, ← hms]
    simp [hms, Nat.add_assoc]

end MemberLoop

theorem members_of_drop {fuel : Nat} {r : Record} {ms : List Member} {text : Array Char} {q : Nat}
    {rest : List Char} (hFields : r.fields = ms.map (·.1)) (hNames : (ms.map (·.1.name)).Nodup)
    (hReads : ∀ m ∈ ms, ReadsValue (shaped fuel m.1.shape) m.2.1 m.2.2)
    (h : text.toList.drop q =
      [','].intercalate (ms.map fun m => memberText m.1.name m.2.1) ++ '\x7d' :: rest) :
    members fuel r text q = .ok (ms.map (·.2.2))
      (q + ([','].intercalate (ms.map fun m => memberText m.1.name m.2.1)).length) := by
  have hBound : ms.length < text.size + 1 := by
    have hLength := congrArg List.length h
    have hCount := length_le_intercalate_comma (fun m : Member => memberText m.1.name m.2.1) ms
    simp only [List.length_drop, Array.length_toList, List.length_append, List.length_cons]
      at hLength
    omega
  have hStart : r.fields.map (fun _ => (none : Option Datum)) = heldValues [] ms := by
    rw [hFields, heldValues, List.map_nil, List.nil_append, List.map_map]
    rfl
  unfold members
  rw [hStart, bind_ok (read_run text q)]
  dsimp only
  rw [forIn_range, bind_ok (forIn_members ?hStep ?hEnd q (text.size + 1) rest hBound h)]
  · rfl
  case hEnd =>
    intro a first q' rest' hq'
    dsimp only
    rw [bind_ok (skipBlank_of_drop hq' rfl)]
    simp only
    rw [bind_ok (complete_heldValues hFields text q')]
    rfl
  case hStep =>
    intro a pre m post q' rest' hms hq' hAfter
    have hm : m ∈ ms := by simp [hms]
    have hIndex : fieldIndex r m.1.name = some pre.length :=
      fieldIndex_of_nodup (hms ▸ hFields) (hms ▸ hNames)
    have hRead : ReadsValue (shaped fuel (r.fields.getD pre.length ⟨"", .bool, none⟩).shape)
        m.2.1 m.2.2 := by
      rw [hFields, hms]
      simpa [List.getD_eq_getElem?_getD] using hReads m hm
    have hFree := getD_heldValues pre post m
    dsimp only
    by_cases hPre : pre = []
    · subst hPre
      have hm : text.toList.drop q' = memberText m.1.name m.2.1 ++ rest' := by simpa using hq'
      rw [bind_ok (skipBlank_of_drop (by simpa [memberText, toList_quote] using hq') rfl)]
      simp +decide only [if_false]
      rw [member_of_drop hIndex hFree hRead hm hAfter, set_heldValues]
      simp
    · have hComma : text.toList.drop q' = ',' :: (memberText m.1.name m.2.1 ++ rest') := by
        simpa [hPre] using hq'
      have hm := drop_succ_of_drop hComma
      rw [bind_ok (skipBlank_of_drop hComma rfl)]
      simp only [hPre, decide_false, Bool.not_false, if_true]
      rw [bind_ok (bump_run text q'),
        bind_ok (skipBlank_of_drop (by simpa [memberText, toList_quote] using hm) rfl),
        member_of_drop hIndex hFree hRead hm hAfter, set_heldValues]
      simp only [if_false, List.length_append, List.length_cons, List.length_nil]
      exact congrArg (EStateM.Result.ok _) (by omega)

theorem endObject_of_drop {text : Array Char} {p : Nat} {rest : List Char}
    (h : text.toList.drop p = '\x7d' :: rest) : endObject text p = .ok () (p + 1) := by
  unfold endObject
  rw [bind_ok (skipBlank_of_drop h rfl)]
  rfl

def objectText (ms : List Member) : List Char :=
  '\x7b' :: [','].intercalate (ms.map fun m => memberText m.1.name m.2.1) ++ ['\x7d']

section Records

variable {fuel : Nat} {r : Record} {ms : List Member}
  (hFields : r.fields = ms.map (·.1)) (hNames : (ms.map (·.1.name)).Nodup)
include hFields hNames

theorem reads_record (hReads : ∀ m ∈ ms, ReadsValue (shaped fuel m.1.shape) m.2.1 m.2.2) :
    ReadsValue (record fuel r) (objectText ms) (ms.map (·.2.2)) := by
  intro text p rest h _
  have hOpen : text.toList.drop p = '\x7b' ::
      ([','].intercalate (ms.map fun m => memberText m.1.name m.2.1) ++ '\x7d' :: rest) := by
    simpa [objectText] using h
  have hBody := drop_succ_of_drop hOpen
  unfold record
  apply place_of_ok
  rw [bind_ok (skipBlank_of_drop hOpen rfl)]
  simp +decide only
  rw [bind_ok (bump_run text p), show p + (objectText ms).length =
    p + 1 + ([','].intercalate (ms.map fun m => memberText m.1.name m.2.1)).length + 1 by
      simp [objectText]; omega]
  exact closing_of_ok (members_of_drop hFields hNames hReads hBody)
    (endObject_of_drop (drop_add_of_drop hBody))

theorem readRecord_objectText {s : String} (hs : s.toList = objectText ms)
    (hReads : ∀ m ∈ ms, ReadsValue (shaped (s.length + 2) m.1.shape) m.2.1 m.2.2) :
    readRecord r s = .ok (ms.map (·.2.2)) := by
  have hSize : s.toList.toArray.size = s.length := by
    rw [List.size_toArray, String.length_toList]
  have hText : s.toList.toArray.toList.drop 0 = objectText ms ++ [] := by simp [hs]
  have hRecord := reads_record hFields hNames hReads _ 0 [] hText afterValue_nil
  have hEnd : s.toList.toArray.toList.drop (0 + (objectText ms).length) = [] := by simp [hs]
  unfold readRecord
  simp only [EStateM.run]
  rw [hSize, bind_ok hRecord, bind_ok (skipBlank_of_drop_nil hEnd)]
  rfl

end Records

end Fiff.Json
