import Fiff.Proofs.WriteGate
import Fiff.Proofs.Transpose
import Fiff.Summary
import Mathlib

/-!
# What a summary accepts

A description is summarised by writing its labelled matrix as a block on a new writer, finishing
the stream and reading the matrix back. The round trip succeeds exactly on the consistent
descriptions whose payloads fit a tag header (`Description.Consistent`,
`Description.FitsHeaders`, both stated over the description alone): rows of one length, counts
that are those of the rows and fit a signed word, label lists that are empty or name every row
or column, and a kind none of whose tags come before the data in the block. The summary then
reports the rows' shape, the labels as the reader splits them (an empty list is not written and
comes back empty), a range exactly when there are values, and the length of the block.
-/

set_option autoImplicit false

namespace Fiff

open NamedMatrix

/-- The bytes a label list adds to a block: none for an empty list, which is not written, and
otherwise a header and the joined labels. -/
def labelBytes (names : List String) : Nat :=
  if names = [] then 0 else 16 + (Labels.join names).utf8ByteSize

theorem length_encode_string (s : String) : (TagData.string s).encode.length = s.utf8ByteSize := by
  simp [TagData.encode, String.size_toByteArray]

theorem labelsFit_iff {names : List String} {count : Nat} :
    LabelsFit names count ↔
      (names = [] ∨ names.length = count) ∧ (Labels.join names).utf8ByteSize ≤ maxPayload := by
  rw [LabelsFit, length_encode_string]
  constructor
  · rintro (rfl | ⟨hCount, hFit⟩)
    · exact ⟨.inl rfl, by simp [Labels.join, maxPayload]⟩
    · exact ⟨.inr hCount, hFit⟩
  · rintro ⟨rfl | hCount, hFit⟩
    · exact .inl rfl
    · exact .inr ⟨hCount, hFit⟩

theorem combine_eq_none_iff (f : Binary32 → Binary32 → Binary32) (l : List Binary32) :
    combine f l = none ↔ l = [] := by
  cases l <;> simp [combine]

theorem length_stream (ts : List Tag) :
    (Tag.stream ts).length = (ts.map fun t => 16 + t.data.encode.length).sum := by
  induction ts with
  | nil => rfl
  | cons t ts ih => rw [Tag.stream_cons, List.length_append, Tag.length_frame, ih]; simp

theorem length_stream_labelCall (κ : Int32) (names : List String) :
    (Tag.stream ((labelCall κ names).map Call.tag)).length = labelBytes names := by
  by_cases hNames : names = []
  · simp [labelCall, hNames, labelBytes]
  · have hNotEmpty : names.isEmpty = false := List.isEmpty_eq_false_iff.mpr hNames
    simp [length_stream, labelCall, hNotEmpty, labelBytes, hNames, Call.tag, length_encode_string,
      Labels.join]

theorem length_stream_calls (kind : Int32) (m : NamedMatrix) :
    (Tag.stream ((calls kind m).map Call.tag)).length =
      108 + 4 * m.data.entries.length + labelBytes m.rowNames + labelBytes m.colNames := by
  rw [← length_stream_labelCall Kind.rowNames, ← length_stream_labelCall Kind.colNames]
  simp only [calls, contents, preamble, List.map_cons, List.map_append, List.map_nil,
    List.cons_append, List.append_assoc, List.nil_append, Tag.stream_cons, Tag.stream_append,
    Tag.stream_nil, List.length_append, Tag.length_frame, Call.tag, TagData.encode,
    Word.length_ofInt32, Matrix.length_encode, List.length_nil]
  omega

namespace Description

def rows (d : Description) : Nat := d.data.length

def cols (d : Description) : Nat := (d.data.head?.map List.length).getD 0

def described (d : Description) (h : ∀ r ∈ d.data, r.length = d.cols) : NamedMatrix :=
  ⟨d.nrow.getD d.rows, d.ncol.getD d.cols, d.rowNames, d.colNames,
    ⟨d.rows, d.cols, d.data.flatten, Matrix.length_flatten_of_width _ _ h⟩⟩

/-- A description that a summary accepts, apart from the size of its payloads: rows of one
length, counts (given or taken from the rows) that are the rows' and fit a signed word, label
lists that are empty or name every row or column, and a kind none of whose tags come before the
data in the block. -/
structure Consistent (d : Description) : Prop where
  rectangular : ∀ r ∈ d.data, r.length = d.cols
  nrow : d.nrow.getD d.rows = d.rows
  ncol : d.ncol.getD d.cols = d.cols
  rows_le : d.rows ≤ Writer.maxDimension
  cols_le : d.cols ≤ Writer.maxDimension
  rowNames : d.rowNames = [] ∨ d.rowNames.length = d.rows
  colNames : d.colNames = [] ∨ d.colNames.length = d.cols
  kind : d.kind ∉ leadingKinds

/-- The payloads of a description's block fit a tag header: the data, and each label list joined
by `:`. -/
structure FitsHeaders (d : Description) : Prop where
  data : 4 * (d.rows * d.cols) + 12 ≤ maxPayload
  rowNames : (Labels.join d.rowNames).utf8ByteSize ≤ maxPayload
  colNames : (Labels.join d.colNames).utf8ByteSize ≤ maxPayload

variable {d : Description}

theorem toNamed_of_rectangular (h : ∀ r ∈ d.data, r.length = d.cols) :
    d.toNamed = .ok (d.described h) := by
  have hWidth : ∀ r ∈ d.data, r.length = (d.data.head?.map List.length).getD 0 := h
  unfold toNamed Matrix.ofRows
  dsimp only
  rw [dif_pos hWidth]
  rfl

theorem toNamed_of_ragged (h : ¬ ∀ r ∈ d.data, r.length = d.cols) :
    ∃ r, d.toNamed = .error r := by
  have hWidth : ¬ ∀ r ∈ d.data, r.length = (d.data.head?.map List.length).getD 0 := h
  unfold toNamed Matrix.ofRows
  dsimp only
  rw [dif_neg hWidth]
  exact ⟨_, rfl⟩

theorem writable_iff (h : ∀ r ∈ d.data, r.length = d.cols) :
    ((d.described h).Writable ∧ (d.described h).data.rows = (d.described h).nrow ∧
        (d.described h).data.cols = (d.described h).ncol ∧ d.kind ∉ leadingKinds) ↔
      d.Consistent ∧ d.FitsHeaders := by
  have hEntries : (d.described h).data.entries.length = d.rows * d.cols :=
    (d.described h).data.length_entries
  constructor
  · rintro ⟨⟨⟨-, -, -⟩, hRn, hCn, ⟨hRows, hCols⟩, hPayload⟩, hShapeRows, hShapeCols, hKind⟩
    have hNrow : d.nrow.getD d.rows = d.rows := hShapeRows.symm
    have hNcol : d.ncol.getD d.cols = d.cols := hShapeCols.symm
    obtain ⟨hRn, hRnFit⟩ := labelsFit_iff.mp hRn
    obtain ⟨hCn, hCnFit⟩ := labelsFit_iff.mp hCn
    simp only [described, hNrow, hNcol] at hRn hCn hRnFit hCnFit
    exact ⟨⟨h, hNrow, hNcol, hRows, hCols, hRn, hCn, hKind⟩,
      ⟨by rwa [hEntries] at hPayload, hRnFit, hCnFit⟩⟩
  · rintro ⟨hc, hf⟩
    have hRn : LabelsFit (d.described h).rowNames (d.described h).nrow := by
      simp only [described, hc.nrow]
      exact labelsFit_iff.mpr ⟨hc.rowNames, hf.rowNames⟩
    have hCn : LabelsFit (d.described h).colNames (d.described h).ncol := by
      simp only [described, hc.ncol]
      exact labelsFit_iff.mpr ⟨hc.colNames, hf.colNames⟩
    have hCounts : (d.described h).CountsPass := by
      refine ⟨?_, ?_, ?_⟩ <;> simp only [described, hc.nrow, hc.ncol]
      · exact hEntries.symm
      · exact hc.rows_le
      · exact hc.cols_le
    refine ⟨⟨hCounts, hRn, hCn, ⟨hc.rows_le, hc.cols_le⟩, ?_⟩, ?_, ?_, hc.kind⟩
    · rw [hEntries]
      exact hf.data
    · exact hc.nrow.symm
    · exact hc.ncol.symm

theorem summarize_of_consistent (opts : ReadOptions) (hc : d.Consistent) (hf : d.FitsHeaders) :
    let m := d.described hc.rectangular
    let got : NamedMatrix := if opts.transpose then
      (⟨m.nrow, m.ncol, Labels.readBack m.rowNames, Labels.readBack m.colNames, m.data⟩ :
        NamedMatrix).transpose
      else ⟨m.nrow, m.ncol, Labels.readBack m.rowNames, Labels.readBack m.colNames, m.data⟩
    ∃ notes, summarize d opts = (notes, .ok ⟨d.kind, got.nrow, got.ncol, got.rowNames,
      got.colNames, combine Binary32.min got.data.entries, combine Binary32.max got.data.entries,
      (Tag.stream ((calls d.kind m).map Call.tag)).length⟩) := by
  dsimp only
  obtain ⟨hm, hRows, hCols, hKind⟩ := (writable_iff hc.rectangular).mpr ⟨hc, hf⟩
  obtain ⟨w, hRun, hFinish⟩ := write_alone d.kind hm
  obtain ⟨r, hRead⟩ := readNamedMatrix_writable_eq hm (Reader.new_bytes _)
    (locateNamed?_alone d.kind _) ⟨hRows, hCols⟩ hKind opts
  unfold summarize
  rw [toNamed_of_rectangular hc.rectangular]
  simp only [hRun, hFinish, hRead]
  exact ⟨_, rfl⟩

theorem summarize_error (opts : ReadOptions) (h : ¬ (d.Consistent ∧ d.FitsHeaders)) :
    ∃ e, (summarize d opts).2 = .error e := by
  by_cases hRect : ∀ r ∈ d.data, r.length = d.cols
  · unfold summarize
    rw [toNamed_of_rectangular hRect]
    dsimp only
    cases hRun : (writeNamedMatrix d.kind (d.described hRect)).run Writer.new with
    | error e w => exact ⟨_, rfl⟩
    | ok u w =>
      have hm := writable_of_write_ok hRun
      obtain ⟨w', hRun', hFinish⟩ := write_alone d.kind hm
      obtain rfl : w' = w := by
        rw [hRun] at hRun'
        cases hRun'
        rfl
      have hNot : ¬ ((d.described hRect).data.rows = (d.described hRect).nrow ∧
          (d.described hRect).data.cols = (d.described hRect).ncol ∧ d.kind ∉ leadingKinds) :=
        fun hs => h ((writable_iff hRect).mp ⟨hm, hs⟩)
      obtain ⟨e, r, hRead⟩ := readNamedMatrix_writable_error hm (Reader.new_bytes _)
        (locateNamed?_alone d.kind _) hNot opts
      simp only [hFinish, hRead]
      exact ⟨_, rfl⟩
  · obtain ⟨r, hr⟩ := toNamed_of_ragged hRect
    unfold summarize
    rw [hr]
    exact ⟨_, rfl⟩

end Description

open Description in
/-- A description's summary succeeds exactly when the description is consistent and its payloads
fit a tag header. A summary that succeeds reports the description's kind, the rows' shape and
the labels as the reader splits them (an empty list comes back empty), both swapped when the
read transposes; no range exactly when there are no values; and a block of 108 bytes, four
for each value, and a header and the joined text for each label list that is not empty. -/
theorem summary_accepts_consistent (d : Description) (opts : ReadOptions) :
    ((∃ s, (summarize d opts).2 = .ok s) ↔ d.Consistent ∧ d.FitsHeaders) ∧
      ∀ s, (summarize d opts).2 = .ok s →
        s.kind = d.kind ∧
        (s.nrow, s.ncol) = (if opts.transpose then (d.cols, d.rows) else (d.rows, d.cols)) ∧
        (s.rowNames, s.colNames) = (if opts.transpose then
          (Labels.readBack d.colNames, Labels.readBack d.rowNames)
          else (Labels.readBack d.rowNames, Labels.readBack d.colNames)) ∧
        (s.min = none ↔ d.data.flatten = []) ∧ (s.max = none ↔ d.data.flatten = []) ∧
        s.encodedBytes = 108 + 4 * (d.rows * d.cols) + labelBytes d.rowNames +
          labelBytes d.colNames := by
  have hAccepts : (∃ s, (summarize d opts).2 = .ok s) → d.Consistent ∧ d.FitsHeaders := by
    rintro ⟨s, hs⟩
    by_contra hNot
    obtain ⟨e, he⟩ := summarize_error opts hNot
    rw [he] at hs
    cases hs
  refine ⟨⟨hAccepts, fun ⟨hc, hf⟩ => ?_⟩, fun s hs => ?_⟩
  · obtain ⟨notes, hSum⟩ := summarize_of_consistent opts hc hf
    exact ⟨_, by rw [hSum]⟩
  obtain ⟨hc, hf⟩ := hAccepts ⟨s, hs⟩
  obtain ⟨notes, hSum⟩ := summarize_of_consistent opts hc hf
  rw [hSum] at hs
  cases hs
  have hEntries : (d.described hc.rectangular).data.entries = d.data.flatten := rfl
  have hLength : d.data.flatten.length = d.rows * d.cols :=
    Matrix.length_flatten_of_width _ _ hc.rectangular
  have hTransposed : (d.described hc.rectangular).data.transpose.entries = [] ↔
      d.data.flatten = [] := by
    rw [← List.length_eq_zero_iff, ← List.length_eq_zero_iff,
      (d.described hc.rectangular).data.transpose.length_entries, hLength]
    simp only [Matrix.transpose_rows, Matrix.transpose_cols, described, Nat.mul_comm]
  refine ⟨rfl, ?_, ?_, ?_, ?_, ?_⟩
  · cases opts.transpose <;> simp [NamedMatrix.transpose, described, hc.nrow, hc.ncol]
  · cases opts.transpose <;> simp [NamedMatrix.transpose, described]
  · cases opts.transpose <;> simp [NamedMatrix.transpose, combine_eq_none_iff, hEntries, hTransposed]
  · cases opts.transpose <;> simp [NamedMatrix.transpose, combine_eq_none_iff, hEntries, hTransposed]
  · rw [length_stream_calls, hEntries, hLength]
    rfl

open Description in
/-- Two rows of three values with row labels, summarised untransposed: the hypotheses of the
facts in `summary_accepts_consistent` hold, and the summary is two by three, keeps the row
labels, has no column labels and a block of 151 bytes. -/
theorem summary_accepts_labelled_rows :
    let d : Description := ⟨3562, none, none, ["a", "b"], [],
      [[⟨0x3f800000⟩, ⟨0xc0000000⟩, ⟨0x40400000⟩], [⟨0x40800000⟩, ⟨0x40a00000⟩, ⟨0x40c00000⟩]]⟩
    ∃ s, (summarize d {}).2 = .ok s ∧ (s.nrow, s.ncol) = (2, 3) ∧
      (s.rowNames, s.colNames) = (["a", "b"], []) ∧ s.encodedBytes = 151 := by
  intro d
  obtain ⟨hIff, hFacts⟩ := summary_accepts_consistent d {}
  have hc : d.Consistent :=
    ⟨by decide, rfl, rfl, by decide, by decide, .inr rfl, .inl rfl, by decide⟩
  have hf : d.FitsHeaders := ⟨by decide, by decide, by decide⟩
  obtain ⟨s, hs⟩ := hIff.mpr ⟨hc, hf⟩
  obtain ⟨-, hShape, hNames, -, -, hBytes⟩ := hFacts s hs
  have hRows : Labels.readBack ["a", "b"] = ["a", "b"] := by cbv
  refine ⟨s, hs, hShape, ?_, ?_⟩
  · rw [hNames]
    show (Labels.readBack ["a", "b"], Labels.readBack []) = (["a", "b"], [])
    rw [hRows]
    rfl
  · rw [hBytes]
    decide

open Description in
/-- An unlabelled one-by-one description: the round trip succeeds and its summary has no row
labels, while splitting the joined empty list gives one empty label. -/
theorem unlabelled_summary_has_no_labels :
    let d : Description := ⟨3562, none, none, [], [], [[⟨0x3f800000⟩]]⟩
    ∃ s, (summarize d {}).2 = .ok s ∧ s.rowNames = [] ∧
      Labels.split (Labels.join d.rowNames) = [""] := by
  intro d
  have hc : d.Consistent := ⟨by decide, rfl, rfl, by decide, by decide, .inl rfl, .inl rfl, by decide⟩
  have hf : d.FitsHeaders := ⟨by decide, by decide, by decide⟩
  obtain ⟨notes, hSum⟩ := summarize_of_consistent {} hc hf
  refine ⟨_, by rw [hSum], by simp [Labels.readBack, described, d], by cbv⟩

end Fiff
