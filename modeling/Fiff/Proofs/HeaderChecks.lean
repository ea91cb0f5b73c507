import Fiff.Proofs.Stream

/-!
# Reading one tag of any stream

Reading the tag an entry points to seeks to the entry's offset and makes five checks, each with
its own error: the sixteen header bytes are there, the header's kind is the entry's, the
header's size is the entry's, that size is not negative, and the payload bytes are there. The
payload is then decoded under the data type the header gives; the entry's own data type is never
looked at. `Reader.tagAt` lists the checks in that order over the bytes of the stream alone, and
`read_tag_checks` shows that a read gives exactly its outcome, wherever earlier reads left the
cursor.
-/

set_option autoImplicit false

namespace Fiff

def resultValue {ε σ α : Type} : EStateM.Result ε σ α → Except ε α
  | .ok a _ => .ok a
  | .error e _ => .error e

theorem resultValue_eq_ok_iff {ε σ α : Type} {x : EStateM.Result ε σ α} {a : α} :
    resultValue x = .ok a ↔ ∃ s, x = .ok a s := by
  cases x <;> simp [resultValue]

namespace Reader

def wordAt (B : List UInt8) (p : Nat) : Int32 := Word.toInt32 ((B.drop p).take 4)

def slice (B : List UInt8) (p n : Nat) : List UInt8 := (B.drop p).take n

/-- The outcome of reading the tag that an entry points to in a stream: the checks in the order
they are made, the first that fails giving the error, and otherwise the payload decoded under
the header's data type. Every error of a header check carries the entry's kind. -/
def tagAt (B : List UInt8) (e : DirEntry) : Except TagError Tag :=
  let start := e.pos + 16
  let kind := wordAt B e.pos
  let size := wordAt B (e.pos + 8)
  if B.length < start then .error (.io .shortRead)
  else if kind ≠ e.kind then .error (.malformedPayload e.kind (.misplacedTag kind e.pos))
  else if size ≠ e.size then .error (.malformedPayload e.kind (.sizeDisagrees size e.size))
  else if e.size < 0 then .error (.malformedPayload e.kind (.negativeSize e.size))
  else if B.length < start + e.size.toInt.toNat then
    .error (.io (.shortPayload e.kind (B.length - start) e.size.toInt.toNat))
  else (TagData.decode e.kind (wordAt B (e.pos + 4)) (slice B start e.size.toInt.toNat)).map
    (⟨e.kind, ·⟩)

/-- A stream holds a readable tag at an entry, with payload `d`: its header and payload bytes
are there, the header agrees with the entry on kind and a size that is not negative, and the
payload decodes to `d` under the header's data type. -/
structure Reads (B : List UInt8) (e : DirEntry) (d : TagData) : Prop where
  header : e.pos + 16 ≤ B.length
  kind : wordAt B e.pos = e.kind
  size : wordAt B (e.pos + 8) = e.size
  nonneg : 0 ≤ e.size
  payload : e.pos + 16 + e.size.toInt.toNat ≤ B.length
  decode : TagData.decode e.kind (wordAt B (e.pos + 4)) (slice B (e.pos + 16) e.size.toInt.toNat)
    = .ok d

theorem header?_of_le {B : List UInt8} {p : Nat} (h : p + 16 ≤ B.length) :
    header? B p = some (wordAt B p, wordAt B (p + 4), wordAt B (p + 8)) := by
  have hLength : ((B.drop p).take 16).length = 16 := by
    rw [List.length_take, List.length_drop]
    omega
  simp only [header?, hLength, if_true, wordAt, List.take_take, List.drop_take, List.drop_drop]
  simp

theorem header?_of_lt {B : List UInt8} {p : Nat} (h : B.length < p + 16) : header? B p = none := by
  have hLength : ((B.drop p).take 16).length ≠ 16 := by
    rw [List.length_take, List.length_drop]
    omega
  simp only [header?, hLength, if_false]

theorem length_slice (B : List UInt8) (p n : Nat) :
    (slice B p n).length = min n (B.length - p) := by
  rw [slice, List.length_take, List.length_drop]

theorem resultValue_readTag (e : DirEntry) (r : Reader) :
    resultValue ((readTag e).run r) = tagAt r.bytes e := by
  unfold tagAt
  by_cases hHeader : r.bytes.length < e.pos + 16
  · simp [EStateM.run, readTag, header?_of_lt hHeader, hHeader, resultValue]
  have hAt := header?_of_le (Nat.le_of_not_lt hHeader)
  simp only [EStateM.run, readTag, hAt, hHeader, if_false]
  by_cases hKind : wordAt r.bytes e.pos = e.kind
  · simp only [hKind, ne_eq, not_true_eq_false, if_false]
    by_cases hSize : wordAt r.bytes (e.pos + 8) = e.size
    · simp only [hSize, not_true_eq_false, if_false]
      by_cases hNeg : e.size < 0
      · simp [hNeg, resultValue]
      have hSlice : ((r.bytes.drop (e.pos + 16)).take e.size.toInt.toNat).length =
          min e.size.toInt.toNat (r.bytes.length - (e.pos + 16)) :=
        length_slice r.bytes (e.pos + 16) e.size.toInt.toNat
      simp only [hNeg, if_false, hSlice]
      by_cases hShort : r.bytes.length < e.pos + 16 + e.size.toInt.toNat
      · rw [if_pos (by omega), if_pos hShort,
          show min e.size.toInt.toNat (r.bytes.length - (e.pos + 16)) =
            r.bytes.length - (e.pos + 16) by omega]
        rfl
      · rw [if_neg (by omega), if_neg hShort]
        unfold slice
        cases TagData.decode e.kind (wordAt r.bytes (e.pos + 4))
          ((r.bytes.drop (e.pos + 16)).take e.size.toInt.toNat) <;> rfl
    · simp [hSize, resultValue]
  · simp [hKind, resultValue]

theorem tagAt_eq_ok_iff (B : List UInt8) (e : DirEntry) (t : Tag) :
    tagAt B e = .ok t ↔ t.kind = e.kind ∧ Reads B e t.data := by
  dsimp only [tagAt]
  constructor
  · intro h
    have hHeader : e.pos + 16 ≤ B.length := by
      by_contra hShort
      rw [if_pos (by omega)] at h
      cases h
    rw [if_neg (by omega)] at h
    have hKind : wordAt B e.pos = e.kind := by
      by_contra hNe
      rw [if_pos hNe] at h
      cases h
    rw [if_neg (not_not.mpr hKind)] at h
    have hSize : wordAt B (e.pos + 8) = e.size := by
      by_contra hNe
      rw [if_pos hNe] at h
      cases h
    rw [if_neg (not_not.mpr hSize)] at h
    have hNeg : ¬ e.size < 0 := by
      intro hNeg
      rw [if_pos hNeg] at h
      cases h
    rw [if_neg hNeg] at h
    have hPayload : e.pos + 16 + e.size.toInt.toNat ≤ B.length := by
      by_contra hShort
      rw [if_pos (by omega)] at h
      cases h
    rw [if_neg (by omega)] at h
    cases hDecode : TagData.decode e.kind (wordAt B (e.pos + 4))
        (slice B (e.pos + 16) e.size.toInt.toNat) with
    | error err =>
      rw [hDecode] at h
      cases h
    | ok d =>
      rw [hDecode] at h
      cases h
      exact ⟨rfl, hHeader, hKind, hSize, Int32.not_lt.mp hNeg, hPayload, hDecode⟩
  · rintro ⟨hKind, hReads⟩
    have hNeg : ¬ e.size < 0 := Int32.not_lt.mpr hReads.nonneg
    rw [if_neg (by have := hReads.header; omega), if_neg (not_not.mpr hReads.kind),
      if_neg (not_not.mpr hReads.size), if_neg hNeg, if_neg (by have := hReads.payload; omega),
      hReads.decode]
    cases t
    simp only at hKind
    rw [hKind]
    rfl

example : tagAt [0, 0, 0x0d, 0xb0, 0, 0, 0, 3, 0, 0, 0, 4, 0, 0, 0, 0, 0, 0, 0, 7]
    ⟨3504, 10, 4, 0⟩ = .ok ⟨3504, .int 7⟩ := by decide

example : tagAt [0, 0, 0x0d, 0xb0, 0, 0, 0, 3, 0, 0, 0, 4, 0, 0, 0, 0, 0, 0] ⟨3504, 3, 4, 0⟩ =
    .error (.io (.shortPayload 3504 2 4)) := by decide

end Reader

open Reader in
/-- Reading the tag an entry points to, from any cursor: the outcome is that of the checks over
the stream's bytes, made in order (header there, kind, size, size not negative, payload there,
payload decodes), and the read succeeds exactly when the stream holds a readable tag at the
entry, giving that tag under the entry's kind with the payload decoded under the header's data
type. -/
theorem read_tag_checks (e : DirEntry) (r : Reader) :
    resultValue ((readTag e).run r) = tagAt r.bytes e ∧
      ∀ t, (∃ r', (readTag e).run r = .ok t r') ↔ t.kind = e.kind ∧ Reads r.bytes e t.data := by
  refine ⟨resultValue_readTag e r, fun t => ?_⟩
  rw [← resultValue_eq_ok_iff, resultValue_readTag, tagAt_eq_ok_iff]

end Fiff
