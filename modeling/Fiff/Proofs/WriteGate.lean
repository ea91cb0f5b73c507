import Fiff.Proofs.ReadTrace
import Fiff.Proofs.WriteOutcome

/-!
# What a labelled-matrix write lets through, against the reader

The write of a labelled matrix checks the exact product of its counts against the number of
entries, each count against a signed word, each label list against its count, and each payload
against a header; a write that succeeds passed all of these (`writable_of_write_ok`). It checks
neither the data's own shape against the counts nor the data kind against the kinds the block
uses itself, and the reader checks both: each count tag must agree with the data found, and the
first tag of the data kind must hold the data. A matrix written alone on a new writer therefore
reads back with its counts exactly when its data has the shape the counts give and its data kind
is none of the kinds whose tags come before the data; otherwise the read fails, and never
reports the matrix absent (`written_matrix_reads_back_iff`).
-/

set_option autoImplicit false

namespace Fiff

theorem wordMax_eq : wordMax = 18446744073709551615 := rfl

namespace Reader

theorem new_bytes (bytes : List UInt8) : (Reader.new bytes).bytes = [] ++ bytes ++ [] := by
  rw [List.nil_append, List.append_nil]
  rfl

variable {ts : List Tag} (hFits : ∀ t ∈ ts, t.Fits) {pre post : List UInt8} {n : Node}
  (hDir : n.directory = Tag.entries pre.length ts)
include hFits hDir

theorem searches_entries (ks : List Int32) {r : Reader}
    (hBytes : r.bytes = pre ++ Tag.stream ts ++ post) :
    ∃ r', Searches n ks (ks.map fun κ => ts.find? (·.kind == κ)) r r' := by
  induction ks generalizing r with
  | nil => exact ⟨r, rfl⟩
  | cons κ ks ih =>
    obtain ⟨r₁, hFind, hSame⟩ := findTag_entries hFits hBytes hDir κ
    obtain ⟨r', hRest⟩ := ih (hSame.trans hBytes)
    exact ⟨r', r₁, hFind, hRest⟩

theorem searches_answers {ks : List Int32} {os : List (Option Tag)} {r r' : Reader}
    (hBytes : r.bytes = pre ++ Tag.stream ts ++ post) (h : Searches n ks os r r') :
    os = ks.map fun κ => ts.find? (·.kind == κ) := by
  induction ks generalizing os r with
  | nil =>
    cases os with
    | nil => rfl
    | cons o os => exact h.elim
  | cons κ ks ih =>
    cases os with
    | nil => exact h.elim
    | cons o os =>
      obtain ⟨r₁, hFind, hRest⟩ := h
      obtain ⟨r₁', hFind', hSame⟩ := findTag_entries hFits hBytes hDir κ
      have hSameRun : EStateM.Result.ok o r₁ = .ok (ts.find? (·.kind == κ)) r₁' :=
        hFind.symm.trans hFind'
      simp only [EStateM.Result.ok.injEq] at hSameRun
      obtain ⟨rfl, rfl⟩ := hSameRun
      rw [List.map_cons, ih (hSame.trans hBytes) hRest]

end Reader

theorem countAgrees_int_iff {κ : Int32} {count n : Nat} (hCount : count ≤ Writer.maxDimension) :
    CountAgrees (some ⟨κ, .int (Int32.ofNat count)⟩) n ↔ n = count := by
  have hWord : (Int32.ofNat count).toInt = count :=
    Int32.toInt_ofNat_of_lt (by unfold Writer.maxDimension at hCount; omega)
  constructor
  · intro h
    obtain ⟨v, hv, hn⟩ := h _ rfl
    cases hv
    omega
  · rintro rfl t ht
    cases ht
    exact ⟨_, rfl, hWord⟩

/-- The labels a read gives back for a label list written by its call: none for an empty list,
which is not written, and otherwise the pieces of the joined text. -/
def Labels.readBack (names : List String) : List String :=
  if names = [] then [] else Labels.split (Labels.join names)

theorem labelsFrom_readBack (κ : Int32) (names : List String) :
    LabelsFrom (if names = [] then none else some ⟨κ, .string (Labels.join names)⟩)
      (Labels.readBack names) := by
  by_cases hNames : names = []
  · simp [hNames, LabelsFrom, Labels.readBack]
  · simp [hNames, LabelsFrom, Labels.readBack]

namespace NamedMatrix

/-- A labelled matrix passes every check of its write: its counts, each label list, the data's
own dimensions and the data payload. -/
structure Writable (m : NamedMatrix) : Prop where
  counts : m.CountsPass
  rowNames : LabelsFit m.rowNames m.nrow
  colNames : LabelsFit m.colNames m.ncol
  dims : m.data.rows ≤ Writer.maxDimension ∧ m.data.cols ≤ Writer.maxDimension
  payload : 4 * m.data.entries.length + 12 ≤ maxPayload

theorem LabelsFit.of_not_refused {names : List String} {count : Nat}
    (hCount : names ≠ [] → names.length ≠ count → False)
    (hSize : names ≠ [] → names.length = count →
      maxPayload < (TagData.string (Labels.join names)).encode.length → False) :
    LabelsFit names count := by
  by_cases hNames : names = []
  · exact .inl hNames
  by_cases hLength : names.length = count
  · exact .inr ⟨hLength, Nat.not_lt.mp (hSize hNames hLength)⟩
  · exact (hCount hNames hLength).elim

variable {kind : Int32} {m : NamedMatrix}

theorem Writable.entries_lt (h : m.Writable) : m.data.entries.length < wordMax := by
  have hPayload := h.payload
  unfold maxPayload at hPayload
  rw [wordMax_eq]
  omega

theorem Writable.calls_fit (h : m.Writable) : ∀ t ∈ (calls kind m).map Call.tag, t.Fits := by
  intro t ht
  obtain ⟨c, hc, rfl⟩ := List.mem_map.mp ht
  rw [calls_eq_opened] at hc
  simp only [opened, List.mem_append, List.mem_cons, List.not_mem_nil, or_false] at hc
  rcases hc with (((rfl | rfl | rfl) | hc) | hc) | rfl | rfl
  · exact Call.fits_int _ _
  · exact Call.fits_int _ _
  · exact Call.fits_int _ _
  · exact (labelCall_plain h.rowNames c hc).2
  · exact (labelCall_plain h.colNames c hc).2
  · exact (writeFloatMatrix_plain kind h.dims h.payload).2
  · exact Call.fits_int _ _

theorem entries_lt_of_write_ok {w w' : Writer} (h : (writeNamedMatrix kind m).run w = .ok () w') :
    m.data.entries.length < wordMax := by
  by_contra hBig
  have hFail : ∃ e, Script.namedMatrix kind m = .fail e := by
    by_cases hSat : saturatingMul m.nrow m.ncol = m.data.entries.length
    · have hOver : Writer.maxDimension < m.nrow ∨ Writer.maxDimension < m.ncol := by
        by_contra hFit
        simp only [not_or, Nat.not_lt] at hFit
        have hProduct := saturatingMul_of_le hFit.1 hFit.2
        have hBound := Nat.mul_le_mul hFit.1 hFit.2
        unfold Writer.maxDimension at hBound
        rw [wordMax_eq] at hBig
        omega
      exact ⟨_, namedMatrix_of_saturated_overflow kind hSat hOver⟩
    · unfold Script.namedMatrix
      exact ⟨_, if_pos hSat⟩
  obtain ⟨e, hScript⟩ := hFail
  rw [Script.writeNamedMatrix_eq_run, hScript] at h
  cases h

/-- A write that succeeds passed every check. -/
theorem writable_of_write_ok {w w' : Writer} (h : (writeNamedMatrix kind m).run w = .ok () w') :
    m.Writable := by
  have hLen := entries_lt_of_write_ok h
  have hNot : ∀ e w'', (writeNamedMatrix kind m).run w ≠ .error e w'' := by
    intro e w'' hErr
    rw [hErr] at h
    cases h
  have hCounts : m.CountsPass := by
    by_cases hProduct : m.nrow * m.ncol = m.data.entries.length
    · by_cases hBig : Writer.maxDimension < m.nrow ∨ Writer.maxDimension < m.ncol
      · exact (hNot _ _ (writeNamedMatrix_overflow kind hLen hProduct hBig w)).elim
      · simp only [not_or, Nat.not_lt] at hBig
        exact ⟨hProduct, hBig.1, hBig.2⟩
    · exact (hNot _ _ (writeNamedMatrix_product_ne kind hLen hProduct w)).elim
  have hRows : LabelsFit m.rowNames m.nrow := .of_not_refused
    (fun hNames hCount =>
      (writeNamedMatrix_rows_miscounted kind hLen hCounts w hNames hCount).elim
        fun _ hErr => hNot _ _ hErr.1)
    (fun hNames hCount hLong =>
      (writeNamedMatrix_rows_too_long kind hLen hCounts w hNames hCount hLong).elim
        fun _ hErr => hNot _ _ hErr.1)
  have hCols : LabelsFit m.colNames m.ncol := .of_not_refused
    (fun hNames hCount =>
      (writeNamedMatrix_cols_miscounted kind hLen hCounts w hRows hNames hCount).elim
        fun _ hErr => hNot _ _ hErr.1)
    (fun hNames hCount hLong =>
      (writeNamedMatrix_cols_too_long kind hLen hCounts w hRows hNames hCount hLong).elim
        fun _ hErr => hNot _ _ hErr.1)
  have hDims : m.data.rows ≤ Writer.maxDimension ∧ m.data.cols ≤ Writer.maxDimension := by
    by_contra hBig
    obtain ⟨_, hErr, -⟩ :=
      writeNamedMatrix_data_oversized kind hLen hCounts w hRows hCols (by omega)
    exact hNot _ _ hErr
  have hPayload : 4 * m.data.entries.length + 12 ≤ maxPayload := by
    by_contra hLong
    obtain ⟨_, hErr, -⟩ :=
      writeNamedMatrix_data_too_long kind hLen hCounts w hRows hCols hDims (Nat.lt_of_not_le hLong)
    exact hNot _ _ hErr
  exact ⟨hCounts, hRows, hCols, hDims, hPayload⟩

theorem write_alone (kind : Int32) (h : m.Writable) :
    ∃ w, (writeNamedMatrix kind m).run Writer.new = .ok () w ∧
      w.finish = .ok (Tag.stream ((calls kind m).map Call.tag),
        ⟨Block.root, [], [block 0 kind m]⟩) := by
  obtain ⟨w, hRun, hBytes, -, hStack, -⟩ :=
    (writerOutcome kind h.entries_lt Writer.new).written h.counts h.rowNames h.colNames h.dims
      h.payload (Node.empty Block.root) [] rfl
  refine ⟨w, hRun, ?_⟩
  have hDepth : ¬ w.depth > 0 := by simp [Writer.depth, hStack]
  have hNew : Writer.new.bytes = [] ∧ Writer.new.pos = 0 := ⟨rfl, rfl⟩
  unfold Writer.finish
  rw [if_neg hDepth, hBytes, hStack, hNew.1, hNew.2, List.nil_append]
  rfl

theorem locateNamed?_alone (kind : Int32) (m : NamedMatrix) :
    (⟨Block.root, [], [block 0 kind m]⟩ : Node).locateNamed? kind = some (block 0 kind m) := by
  have hHas : (block 0 kind m).hasTag kind = true := by
    rw [Node.hasTag, block, Tag.any_entries]
    simp [calls, contents, Call.tag]
  simp [Node.locateNamed?, hHas, Block.root, Block.namedMatrix]

theorem readAnswers_block (hm : m.Writable) {opts : ReadOptions} {m' : NamedMatrix}
    (h : ReadAnswers opts ((readKinds kind).map fun κ =>
      ((calls kind m).map Call.tag).find? (·.kind == κ)) m') :
    m.data.rows = m.nrow ∧ m.data.cols = m.ncol ∧ kind ∉ leadingKinds := by
  obtain ⟨hRowsKind, hColsKind, hRnKind, hCnKind⟩ := ReadAnswers.kind_apart h
  simp only [readKinds, List.map_cons, List.map_nil] at h
  obtain ⟨t, d, rn, cn, hData, hFloat, hRows, hCols, -, -, -⟩ := readAnswers_iff.mp h
  have hStart : kind ≠ Kind.blockStart := by
    rintro rfl
    rw [find?_blockStart, Option.some.injEq] at hData
    subst hData
    cases hFloat
  have hKind : kind ∉ leadingKinds := by
    simp only [leadingKinds, List.mem_cons, List.not_mem_nil, or_false, not_or]
    exact ⟨hStart, hRowsKind, hColsKind, hRnKind, hCnKind⟩
  rw [find?_data_of_not_leading hKind, Option.some.injEq] at hData
  subst hData
  cases hFloat
  rw [find?_count m (.inl rfl), countAgrees_int_iff hm.counts.nrow_le] at hRows
  rw [find?_count m (.inr rfl), countAgrees_int_iff hm.counts.ncol_le] at hCols
  exact ⟨hRows, hCols, hKind⟩

section

variable {root : Node} {pre post : List UInt8} {r : Reader} (hm : m.Writable)
  (hBytes : r.bytes = pre ++ Tag.stream ((calls kind m).map Call.tag) ++ post)
  (hLocate : root.locateNamed? kind = some (block pre.length kind m))
include hm hBytes hLocate

theorem readNamedMatrix_writable_eq (hShape : m.data.rows = m.nrow ∧ m.data.cols = m.ncol)
    (hKind : kind ∉ leadingKinds) (opts : ReadOptions) :
    ∃ r', (readNamedMatrix root kind opts).run r =
      .ok (some (if opts.transpose then (⟨m.nrow, m.ncol, Labels.readBack m.rowNames,
        Labels.readBack m.colNames, m.data⟩ : NamedMatrix).transpose
        else ⟨m.nrow, m.ncol, Labels.readBack m.rowNames, Labels.readBack m.colNames, m.data⟩)) r' := by
  obtain ⟨r₅, hSearch⟩ := Reader.searches_entries hm.calls_fit (n := block pre.length kind m) rfl
    (readKinds kind) hBytes
  refine readNamedMatrix_ok_of_searches hLocate hSearch (readAnswers_iff.mpr ⟨_, m.data, _, _,
    find?_data_of_not_leading hKind m, rfl, ?_, ?_, ?_, ?_, by rw [hShape.1, hShape.2]⟩)
  all_goals dsimp only
  · rw [find?_count m (.inl rfl), countAgrees_int_iff hm.counts.nrow_le]
    exact hShape.1
  · rw [find?_count m (.inr rfl), countAgrees_int_iff hm.counts.ncol_le]
    exact hShape.2
  · rw [find?_labels_of_not_leading hKind m (.inl rfl)]
    exact labelsFrom_readBack _ _
  · rw [find?_labels_of_not_leading hKind m (.inr rfl)]
    exact labelsFrom_readBack _ _

theorem readNamedMatrix_writable (hShape : m.data.rows = m.nrow ∧ m.data.cols = m.ncol)
    (hKind : kind ∉ leadingKinds) (opts : ReadOptions) :
    ∃ (rn cn : List String) (r' : Reader), (readNamedMatrix root kind opts).run r =
      .ok (some (if opts.transpose then (⟨m.nrow, m.ncol, rn, cn, m.data⟩ : NamedMatrix).transpose
        else ⟨m.nrow, m.ncol, rn, cn, m.data⟩)) r' := by
  obtain ⟨r', hRead⟩ := readNamedMatrix_writable_eq hm hBytes hLocate hShape hKind opts
  exact ⟨_, _, r', hRead⟩

theorem readNamedMatrix_writable_error
    (hNot : ¬ (m.data.rows = m.nrow ∧ m.data.cols = m.ncol ∧ kind ∉ leadingKinds))
    (opts : ReadOptions) :
    ∃ e r', (readNamedMatrix root kind opts).run r = .error e r' := by
  cases hRun : (readNamedMatrix root kind opts).run r with
  | error e r' => exact ⟨e, r', rfl⟩
  | ok res r' =>
    obtain ⟨m', -, answers, r₅, note, hSearch, hAnswers, -⟩ :=
      readNamedMatrix_located_eq_ok hLocate hRun
    rw [Reader.searches_answers hm.calls_fit (n := block pre.length kind m) rfl hBytes
      hSearch] at hAnswers
    exact absurd (readAnswers_block hm hAnswers) hNot

end

end NamedMatrix

open NamedMatrix in
/-- A labelled matrix whose write on a new writer succeeds: the writer finishes, and a read of
its data kind with the default options gives back a matrix with its counts and data exactly when
the data has the shape the counts give and the data kind is none of the kinds whose tags come
before the data in its block; otherwise the read fails. -/
theorem written_matrix_reads_back_iff (kind : Int32) (m : NamedMatrix) (w : Writer)
    (hWrite : (writeNamedMatrix kind m).run Writer.new = .ok () w) :
    ∃ bytes root, w.finish = .ok (bytes, root) ∧
      (m.data.rows = m.nrow ∧ m.data.cols = m.ncol ∧ kind ∉ leadingKinds →
        ∃ m' r, (readNamedMatrix root kind {}).run (Reader.new bytes) = .ok (some m') r ∧
          m'.nrow = m.nrow ∧ m'.ncol = m.ncol ∧ m'.data = m.data) ∧
      (¬ (m.data.rows = m.nrow ∧ m.data.cols = m.ncol ∧ kind ∉ leadingKinds) →
        ∃ e r, (readNamedMatrix root kind {}).run (Reader.new bytes) = .error e r) := by
  have hm := writable_of_write_ok hWrite
  obtain ⟨w', hRun, hFinish⟩ := write_alone kind hm
  obtain rfl : w' = w := by
    rw [hRun] at hWrite
    cases hWrite
    rfl
  have hBytes := Reader.new_bytes (Tag.stream ((calls kind m).map Call.tag))
  refine ⟨_, _, hFinish, fun hOk => ?_, fun hNot =>
    readNamedMatrix_writable_error hm hBytes (locateNamed?_alone kind m) hNot {}⟩
  obtain ⟨rn, cn, r, hRead⟩ :=
    readNamedMatrix_writable hm hBytes (locateNamed?_alone kind m) ⟨hOk.1, hOk.2.1⟩ hOk.2.2 {}
  exact ⟨_, r, hRead, rfl, rfl, rfl⟩

open NamedMatrix in
/-- A one-by-one matrix under a kind after the block's own: the hypothesis of
`written_matrix_reads_back_iff` holds. -/
theorem written_matrix_reads_back_single :
    let m : NamedMatrix := ⟨1, 1, [], [], ⟨1, 1, [⟨0x3f800000⟩], rfl⟩⟩
    ∃ w, (writeNamedMatrix 3562 m).run Writer.new = .ok () w ∧
      ∃ bytes root, w.finish = .ok (bytes, root) ∧
        (m.data.rows = m.nrow ∧ m.data.cols = m.ncol ∧ (3562 : Int32) ∉ leadingKinds →
          ∃ m' r, (readNamedMatrix root 3562 {}).run (Reader.new bytes) = .ok (some m') r ∧
            m'.nrow = m.nrow ∧ m'.ncol = m.ncol ∧ m'.data = m.data) ∧
        (¬ (m.data.rows = m.nrow ∧ m.data.cols = m.ncol ∧ (3562 : Int32) ∉ leadingKinds) →
          ∃ e r, (readNamedMatrix root 3562 {}).run (Reader.new bytes) = .error e r) := by
  intro m
  have hm : m.Writable := ⟨⟨rfl, by decide, by decide⟩, .inl rfl, .inl rfl, by decide, by decide⟩
  obtain ⟨w, hRun, -⟩ := write_alone 3562 hm
  exact ⟨w, hRun, written_matrix_reads_back_iff 3562 m w hRun⟩

open NamedMatrix in
/-- Counts of three by four over twelve entries in two rows of six pass every check of the write,
and the reader refuses them: the write and the finish succeed and the read fails. -/
theorem reshaped_matrix_not_read_back :
    let m : NamedMatrix := ⟨3, 4, [], [], ⟨2, 6, List.replicate 12 ⟨0⟩, rfl⟩⟩
    ∃ w bytes root, (writeNamedMatrix 3562 m).run Writer.new = .ok () w ∧
      w.finish = .ok (bytes, root) ∧
      ∃ e r, (readNamedMatrix root 3562 {}).run (Reader.new bytes) = .error e r := by
  intro m
  have hm : m.Writable := ⟨⟨rfl, by decide, by decide⟩, .inl rfl, .inl rfl, by decide, by decide⟩
  obtain ⟨w, hRun, hFinish⟩ := write_alone 3562 hm
  obtain ⟨e, r, hRead⟩ := readNamedMatrix_writable_error hm (Reader.new_bytes _)
    (locateNamed?_alone 3562 m) (by decide) {}
  exact ⟨w, _, _, hRun, hFinish, e, r, hRead⟩

end Fiff
