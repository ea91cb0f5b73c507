import Fiff.Proofs.Word
import Fiff.Writer

/-!
# Payloads read back

Decoding a payload accepts exactly the encodings: `TagData.decode kind ty bytes` gives `d` just
when `ty` is the data type of `d`, `bytes` is the encoding of `d` and, for a float matrix, both
dimensions fit a signed word. The matrix half is the work: the trailer is read back word by word
and the values in runs of four bytes, and a decoded matrix is rebuilt from the same pieces.
Every rejection is a malformed payload or invalid text of the given tag kind.
-/

set_option autoImplicit false

namespace Fiff

open Word

namespace Matrix

theorem length_encode (m : Matrix) : m.encode.length = 4 * m.entries.length + 12 := by
  simp [encode, ofInt32]

theorem entries_map_bits (m : Matrix) :
    (m.entries.map Binary32.bits).map Binary32.mk = m.entries := by
  rw [List.map_map]
  exact List.map_id _

theorem ofShape?_self (m : Matrix) : ofShape? m.rows m.cols m.entries = some m := by
  simp [ofShape?, m.length_entries]

theorem ofShape?_eq_some {rows cols : Nat} {entries : List Binary32} {m : Matrix}
    (h : ofShape? rows cols entries = some m) :
    m.rows = rows ∧ m.cols = cols ∧ m.entries = entries := by
  unfold ofShape? at h
  split at h
  · cases h
    exact ⟨rfl, rfl, rfl⟩
  · cases h

theorem trailer_words {c r t : List UInt8} (hc : c.length = 4) (hr : r.length = 4) :
    (c ++ r ++ t).take 4 = c ∧ ((c ++ r ++ t).drop 4).take 4 = r ∧ (c ++ r ++ t).drop 8 = t := by
  refine ⟨?_, ?_, ?_⟩
  · rw [List.append_assoc, List.take_left' hc]
  · rw [List.append_assoc, List.drop_left' hc, List.take_left' hr]
  · rw [List.append_assoc, List.drop_append, List.drop_eq_nil_of_le (by omega), hc,
      List.nil_append, show 8 - 4 = 4 from rfl, List.drop_left' hr]

theorem trailer_split (dims : List UInt8) :
    dims = dims.take 4 ++ (dims.drop 4).take 4 ++ dims.drop 8 := by
  rw [List.append_assoc, show 8 = 4 + 4 from rfl, ← List.drop_drop, List.take_append_drop,
    List.take_append_drop]

theorem not_neg_toInt32_bytes {n : Nat} (hn : n < 2 ^ 31) : ¬ toInt32 (bytes 4 n) < 0 := by
  rw [Int32.lt_iff_toInt_lt, toInt_toInt32_bytes hn]
  simp

theorem toNat_toInt_le (x : Int32) : x.toInt.toNat ≤ Writer.maxDimension := by
  have h := x.toInt_lt
  unfold Writer.maxDimension
  omega

theorem bytes_toInt32 {ws : List UInt8} (hLength : ws.length = 4) (hNonneg : ¬ toInt32 ws < 0) :
    bytes 4 (toInt32 ws).toInt.toNat = ws := by
  have hLe : 0 ≤ toInt32 ws := by
    rw [Int32.lt_iff_toInt_lt] at hNonneg
    rw [Int32.le_iff_toInt_le]
    simpa using hNonneg
  rw [← ofInt32_of_nonneg hLe, ofInt32_toInt32 hLength]

theorem decode_encode (kind : Int32) (m : Matrix) (hRows : m.rows ≤ Writer.maxDimension)
    (hCols : m.cols ≤ Writer.maxDimension) : decode kind m.encode = .ok m := by
  have hRows' : m.rows < 2 ^ 31 := by unfold Writer.maxDimension at hRows; omega
  have hCols' : m.cols < 2 ^ 31 := by unfold Writer.maxDimension at hCols; omega
  have hValues : (ofUInt32s (m.entries.map Binary32.bits)).length = 4 * m.entries.length := by
    simp
  have hDims : m.encode.drop (4 * m.entries.length) =
      bytes 4 m.cols ++ bytes 4 m.rows ++ ofInt32 2 := by
    rw [encode, List.append_assoc, List.append_assoc, List.drop_left' hValues, List.append_assoc]
  have hTake : m.encode.take (4 * m.entries.length) = ofUInt32s (m.entries.map Binary32.bits) := by
    rw [encode, List.append_assoc, List.append_assoc, List.take_left' hValues]
  obtain ⟨hCol, hRow, hRank⟩ :=
    trailer_words (t := ofInt32 2) (length_bytes 4 m.cols) (length_bytes 4 m.rows)
  have hCount : m.rows * m.cols * 4 = 4 * m.entries.length := by
    rw [m.length_entries, Nat.mul_comm]
  unfold decode
  simp only [length_encode, Nat.add_sub_cancel, hDims, hTake, hCol, hRow, hRank, toInt32_ofInt32,
    toInt_toInt32_bytes hRows', toInt_toInt32_bytes hCols', not_neg_toInt32_bytes hRows',
    not_neg_toInt32_bytes hCols', Int.toNat_natCast, hCount, toUInt32s_ofUInt32s, entries_map_bits,
    ofShape?_self]
  simp

theorem encode_of_decode {kind : Int32} {payload : List UInt8} {m : Matrix}
    (h : decode kind payload = .ok m) :
    m.encode = payload ∧ m.rows ≤ Writer.maxDimension ∧ m.cols ≤ Writer.maxDimension := by
  unfold decode at h
  dsimp only at h
  split_ifs at h with hShort hRank hNeg hCount
  split at h
  · rename_i m' hShape
    cases h
    obtain ⟨hRows, hCols, hEntries⟩ := ofShape?_eq_some hShape
    refine ⟨?_, hRows ▸ toNat_toInt_le _, hCols ▸ toNat_toInt_le _⟩
    set dims := List.drop (payload.length - 12) payload with hDims
    set values := List.take (payload.length - 12) payload with hValues
    have hDimsLength : dims.length = 12 := by rw [hDims, List.length_drop]; omega
    have hValuesLength : values.length % 4 = 0 := by
      rw [hValues, List.length_take, ← hCount]
      omega
    have hRank' : toInt32 (dims.drop 8) = 2 := by simpa using hRank
    have hColBytes : bytes 4 m.cols = dims.take 4 := by
      rw [hCols]
      exact bytes_toInt32 (by simp [hDimsLength]) (fun h => hNeg (.inr h))
    have hRowBytes : bytes 4 m.rows = (dims.drop 4).take 4 := by
      rw [hRows]
      exact bytes_toInt32 (by simp [hDimsLength]) (fun h => hNeg (.inl h))
    have hRankBytes : ofInt32 2 = dims.drop 8 := by
      rw [← hRank', ofInt32_toInt32 (by simp [hDimsLength])]
    have hValueBytes : ofUInt32s (m.entries.map Binary32.bits) = values := by
      have hBits : Binary32.bits ∘ Binary32.mk = id := rfl
      rw [hEntries, List.map_map, hBits, List.map_id]
      exact ofUInt32s_toUInt32s hValuesLength
    rw [encode, hValueBytes, hColBytes, hRowBytes, hRankBytes, List.append_assoc, List.append_assoc,
      ← List.append_assoc (List.take 4 dims), ← trailer_split dims, List.take_append_drop]
  · cases h

theorem decode_error {kind : Int32} {payload : List UInt8} {e : TagError}
    (h : decode kind payload = .error e) : ∃ detail, e = .malformedPayload kind detail := by
  unfold decode at h
  dsimp only at h
  split_ifs at h
  · cases h; exact ⟨_, rfl⟩
  · cases h; exact ⟨_, rfl⟩
  · cases h; exact ⟨_, rfl⟩
  · split at h
    · cases h
    · cases h; exact ⟨_, rfl⟩
  · cases h; exact ⟨_, rfl⟩

end Matrix

theorem fromUTF8?_encode (s : String) :
    String.fromUTF8? ⟨s.toUTF8.data.toList.toArray⟩ = some s := by
  simp [String.fromUTF8?, String.fromUTF8, s.isValidUTF8]

theorem encode_of_fromUTF8? {payload : List UInt8} {s : String}
    (h : String.fromUTF8? ⟨payload.toArray⟩ = some s) : s.toUTF8.data.toList = payload := by
  unfold String.fromUTF8? at h
  split at h
  · cases h
    rfl
  · cases h

namespace TagData

theorem decode_encode (kind : Int32) (d : TagData)
    (hFits : ∀ m, d = .floatMatrix m → m.rows ≤ Writer.maxDimension ∧ m.cols ≤ Writer.maxDimension) :
    decode kind d.typeCode d.encode = .ok d := by
  cases d with
  | int v =>
    show decode kind DataKind.int.code (ofInt32 v) = .ok (.int v)
    simp [decode]
  | string s =>
    show decode kind DataKind.string.code s.toUTF8.data.toList = .ok (.string s)
    rw [decode, if_neg (by decide), if_pos rfl, fromUTF8?_encode]
  | floatMatrix m =>
    obtain ⟨hRows, hCols⟩ := hFits m rfl
    show decode kind DataKind.floatMatrix.code m.encode = .ok (.floatMatrix m)
    rw [decode, if_neg (by decide), if_neg (by decide), if_pos rfl,
      Matrix.decode_encode kind m hRows hCols]
    rfl

theorem encode_of_decode {kind ty : Int32} {payload : List UInt8} {d : TagData}
    (h : decode kind ty payload = .ok d) :
    ty = d.typeCode ∧ payload = d.encode ∧
      ∀ m, d = .floatMatrix m → m.rows ≤ Writer.maxDimension ∧ m.cols ≤ Writer.maxDimension := by
  unfold decode at h
  split_ifs at h with hInt hLength hString hMatrix
  · cases h
    exact ⟨hInt, (ofInt32_toInt32 hLength).symm, fun _ h => nomatch h⟩
  · split at h
    · rename_i s hText
      cases h
      exact ⟨hString, (encode_of_fromUTF8? hText).symm, fun _ h => nomatch h⟩
    · cases h
  · cases hDecode : Matrix.decode kind payload with
    | error e => simp [hDecode, Except.map] at h
    | ok m =>
      simp only [hDecode, Except.map, Except.ok.injEq] at h
      subst h
      obtain ⟨hEncode, hRows, hCols⟩ := Matrix.encode_of_decode hDecode
      refine ⟨hMatrix, hEncode.symm, ?_⟩
      rintro m' ⟨⟩
      exact ⟨hRows, hCols⟩

theorem decode_error {kind ty : Int32} {payload : List UInt8} {e : TagError}
    (h : decode kind ty payload = .error e) :
    (∃ detail, e = .malformedPayload kind detail) ∨ e = .invalidUtf8 kind := by
  unfold decode at h
  split_ifs at h
  · exact .inl ⟨_, (Except.error.inj h).symm⟩
  · split at h
    · cases h
    · exact .inr (Except.error.inj h).symm
  · cases hDecode : Matrix.decode kind payload with
    | error e' =>
      simp only [hDecode, Except.map, Except.error.injEq] at h
      exact .inl (h ▸ Matrix.decode_error hDecode)
    | ok m => simp [hDecode, Except.map] at h
  · exact .inl ⟨_, (Except.error.inj h).symm⟩

/-- Decoding accepts exactly the encodings of payloads that fit: `decode kind ty payload` gives
`d` iff `ty` is the data type of `d`, `payload` is its encoding and, for a float matrix, both
dimensions fit a signed word. Every rejection is a malformed payload or invalid text of `kind`. -/
theorem decode_eq_ok_iff (kind ty : Int32) (payload : List UInt8) (d : TagData) :
    (decode kind ty payload = .ok d ↔ ty = d.typeCode ∧ payload = d.encode ∧
      ∀ m, d = .floatMatrix m → m.rows ≤ Writer.maxDimension ∧ m.cols ≤ Writer.maxDimension) ∧
    ∀ e, decode kind ty payload = .error e →
      (∃ detail, e = .malformedPayload kind detail) ∨ e = .invalidUtf8 kind := by
  refine ⟨⟨encode_of_decode, ?_⟩, fun e => decode_error⟩
  rintro ⟨rfl, rfl, hFits⟩
  exact decode_encode kind d hFits

end TagData

end Fiff
