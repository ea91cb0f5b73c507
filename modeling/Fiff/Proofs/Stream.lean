import Fiff.Proofs.Payload
import Fiff.Reader

/-!
# Tags laid end to end

A stream of tags is the frames of its tags one after another, each frame a header and the
payload. An entry that gives a tag's kind, data type, size and the offset of its frame reads
that tag back, whatever the reader's cursor and whatever bytes stand around the frame, as long
as the tag is one a writer accepts: its payload size fits a header and a matrix's dimensions
fit signed words.
-/

set_option autoImplicit false

namespace Fiff

open Word

namespace Tag

def size (t : Tag) : Int32 := Int32.ofNat t.data.encode.length

def frame (t : Tag) : List UInt8 := Tag.header t.kind t.data.typeCode t.size ++ t.data.encode

def entryAt (t : Tag) (pos : Nat) : DirEntry := ⟨t.kind, t.data.typeCode, t.size, pos⟩

def Fits (t : Tag) : Prop :=
  t.data.encode.length ≤ maxPayload ∧
    ∀ m, t.data = .floatMatrix m → m.rows ≤ Writer.maxDimension ∧ m.cols ≤ Writer.maxDimension

def entries : Nat → List Tag → List DirEntry
  | _, [] => []
  | pos, t :: ts => t.entryAt pos :: entries (pos + t.frame.length) ts

def stream (ts : List Tag) : List UInt8 := ts.flatMap frame

theorem length_header (kind ty size : Int32) : (Tag.header kind ty size).length = 16 := by
  simp [Tag.header]

theorem length_frame (t : Tag) : t.frame.length = 16 + t.data.encode.length := by
  simp [frame, length_header]

@[simp] theorem stream_nil : stream [] = [] := rfl

theorem stream_cons (t : Tag) (ts : List Tag) : stream (t :: ts) = t.frame ++ stream ts := rfl

theorem stream_append (ts us : List Tag) : stream (ts ++ us) = stream ts ++ stream us := by
  simp [stream]

@[simp] theorem length_entries (pos : Nat) (ts : List Tag) : (entries pos ts).length = ts.length := by
  induction ts generalizing pos with
  | nil => rfl
  | cons t ts ih => simp [entries, ih]

theorem entries_append (pos : Nat) (ts us : List Tag) :
    entries pos (ts ++ us) = entries pos ts ++ entries (pos + (stream ts).length) us := by
  induction ts generalizing pos with
  | nil => simp [entries]
  | cons t ts ih =>
    simp only [List.cons_append, entries, ih, stream_cons, List.length_append, Nat.add_assoc]

theorem toInt_size {t : Tag} (hFits : t.Fits) : t.size.toInt = t.data.encode.length := by
  have hLt : t.data.encode.length < 2 ^ 31 := by
    have h := hFits.1
    unfold maxPayload at h
    omega
  exact Int32.toInt_ofNat_of_lt hLt

end Tag

namespace Reader

@[simp] theorem note_bytes (r : Reader) (level : Level) (source : Source) (text : String) :
    (r.note level source text).bytes = r.bytes := rfl

theorem header_words (kind ty size : Int32) :
    toInt32 ((Tag.header kind ty size).take 4) = kind ∧
      toInt32 (((Tag.header kind ty size).drop 4).take 4) = ty ∧
      toInt32 (((Tag.header kind ty size).drop 8).take 4) = size := by
  simp only [Tag.header, List.append_assoc]
  refine ⟨?_, ?_, ?_⟩
  · rw [List.take_left' (length_ofInt32 _), toInt32_ofInt32]
  · rw [List.drop_left' (length_ofInt32 _), List.take_left' (length_ofInt32 _), toInt32_ofInt32]
  · rw [show 8 = 4 + 4 from rfl, ← List.drop_drop, List.drop_left' (length_ofInt32 _),
      List.drop_left' (length_ofInt32 _), List.take_left' (length_ofInt32 _), toInt32_ofInt32]

theorem header?_frame (t : Tag) (pre post : List UInt8) :
    header? (pre ++ t.frame ++ post) pre.length = some (t.kind, t.data.typeCode, t.size) := by
  have hHeader : (Tag.header t.kind t.data.typeCode t.size).length = 16 := Tag.length_header ..
  obtain ⟨hKind, hType, hSize⟩ := header_words t.kind t.data.typeCode t.size
  simp only [header?, Tag.frame, List.append_assoc, List.drop_left, List.take_left' hHeader,
    hHeader, if_pos, hKind, hType, hSize]

theorem payload_frame {t : Tag} (hFits : t.Fits) (pre post : List UInt8) :
    ((pre ++ t.frame ++ post).drop (pre.length + 16)).take t.size.toInt.toNat = t.data.encode := by
  rw [Tag.toInt_size hFits, Int.toNat_natCast, List.append_assoc, List.drop_append,
    List.drop_eq_nil_of_le (by omega), List.nil_append, Nat.add_sub_cancel_left, Tag.frame,
    List.append_assoc, List.drop_left' (Tag.length_header ..), List.take_left' rfl]

theorem readTag_frame {t : Tag} (hFits : t.Fits) (pre post : List UInt8) (r : Reader)
    (hBytes : r.bytes = pre ++ t.frame ++ post) :
    ∃ r', (readTag (t.entryAt pre.length)).run r = .ok t r' ∧ r'.bytes = r.bytes := by
  have hSize : ¬ t.size < 0 := by
    rw [Int32.lt_iff_toInt_lt, Tag.toInt_size hFits]
    simp
  have hPayload : (r.bytes.drop (pre.length + 16)).take t.size.toInt.toNat = t.data.encode := by
    rw [hBytes]
    exact payload_frame hFits pre post
  have hDecode : TagData.decode t.kind t.data.typeCode t.data.encode = .ok t.data :=
    TagData.decode_encode t.kind t.data hFits.2
  simp only [EStateM.run, readTag, Tag.entryAt, hBytes ▸ header?_frame t pre post]
  simp only [ne_eq, not_true_eq_false, if_false, hSize, hPayload, hDecode]
  simp [Tag.toInt_size hFits]

end Reader

end Fiff
