import Fiff.Proofs.WriterCall
import Fiff.Proofs.Nesting
import Fiff.Proofs.Script

/-!
# Labelled matrices written at the top of a stream

A labelled matrix is well formed when its counts are those of its data and fit a signed word,
and each label list is empty or has one label per row or column, none holding `:`. Such a
matrix is written by a fixed list of calls (`NamedMatrix.calls`): the opening tag, the counts,
the label lists that are not empty, the data and the closing tag. Written at the top of a
stream with payloads that fit a header, every call is accepted and the root gains one child
block that holds their entries. A data payload that does not fit stops the write at the data
tag and leaves the block open.
-/

set_option autoImplicit false

namespace Fiff

namespace NamedMatrix

def reservedKinds : List Int32 :=
  [Kind.blockStart, Kind.blockEnd, Kind.rowNames, Kind.colNames, Kind.nrow, Kind.ncol]

def LabelsFor (names : List String) (count : Nat) : Prop :=
  names = [] ∨ (names.length = count ∧ ∀ s ∈ names, ':' ∉ s.toList)

/-- A labelled matrix whose counts are its data's and fit a signed word, with label lists that
are empty or name every row or column without `:`. -/
structure WellFormed (m : NamedMatrix) : Prop where
  rows : m.data.rows = m.nrow
  cols : m.data.cols = m.ncol
  nrow_le : m.nrow ≤ Writer.maxDimension
  ncol_le : m.ncol ≤ Writer.maxDimension
  rowNames : LabelsFor m.rowNames m.nrow
  colNames : LabelsFor m.colNames m.ncol

/-- The payloads of a labelled matrix's block fit a header: the data, and each label list
joined by `:`. -/
structure PayloadsFit (m : NamedMatrix) : Prop where
  data : m.data.encode.length ≤ maxPayload
  rowNames : (TagData.string (Labels.join m.rowNames)).encode.length ≤ maxPayload
  colNames : (TagData.string (Labels.join m.colNames)).encode.length ≤ maxPayload

def labelCall (kind : Int32) (names : List String) : List Call :=
  if names.isEmpty then [] else [.writeNameList kind names]

/-- The calls made inside the block of a labelled matrix before its data: counts and label
lists. -/
def preamble (m : NamedMatrix) : List Call :=
  [.writeInt Kind.nrow (Int32.ofNat m.nrow), .writeInt Kind.ncol (Int32.ofNat m.ncol)] ++
    labelCall Kind.rowNames m.rowNames ++ labelCall Kind.colNames m.colNames

def contents (kind : Int32) (m : NamedMatrix) : List Call :=
  preamble m ++ [.writeFloatMatrix kind m.data]

/-- The calls that write a labelled matrix as one block, its data under `kind`. -/
def calls (kind : Int32) (m : NamedMatrix) : List Call :=
  .startBlock Block.namedMatrix :: contents kind m ++ [.endBlock Block.namedMatrix]

def block (pos : Nat) (kind : Int32) (m : NamedMatrix) : Node :=
  ⟨Block.namedMatrix, Tag.entries pos ((calls kind m).map Call.tag), []⟩

@[simp] theorem block_block (pos : Nat) (kind : Int32) (m : NamedMatrix) :
    (block pos kind m).block = Block.namedMatrix := rfl

theorem saturatingMul_of_le {a b : Nat} (ha : a ≤ Writer.maxDimension)
    (hb : b ≤ Writer.maxDimension) : saturatingMul a b = a * b := by
  have hProduct : a * b ≤ Writer.maxDimension * Writer.maxDimension := Nat.mul_le_mul ha hb
  unfold saturatingMul
  rw [Nat.min_eq_left]
  unfold wordMax
  unfold Writer.maxDimension at hProduct
  norm_num
  omega

theorem labels_eq_ofCalls_of_length {kind : Int32} {axis : Axis} {names : List String}
    {count : Nat} (h : names = [] ∨ names.length = count) (rest : Script) :
    Script.labels kind axis names count rest = Script.ofCalls (labelCall kind names) rest := by
  unfold Script.labels labelCall
  rcases h with rfl | hCount
  · rfl
  · by_cases hEmpty : names.isEmpty
    · rw [if_pos hEmpty, if_pos hEmpty]
      rfl
    · rw [if_neg hEmpty, if_neg hEmpty, if_neg (by simp [hCount])]
      rfl

theorem labels_eq_ofCalls {kind : Int32} {axis : Axis} {names : List String} {count : Nat}
    (h : LabelsFor names count) (rest : Script) :
    Script.labels kind axis names count rest = Script.ofCalls (labelCall kind names) rest :=
  labels_eq_ofCalls_of_length (h.imp_right And.left) rest

theorem namedMatrix_eq {m : NamedMatrix} (hm : m.WellFormed) (kind : Int32) :
    ∃ n, Script.namedMatrix kind m = .note n (Script.ofCalls (calls kind m) .done) := by
  have hShape : saturatingMul m.nrow m.ncol = m.data.entries.length := by
    rw [saturatingMul_of_le hm.nrow_le hm.ncol_le, m.data.length_entries, hm.rows, hm.cols]
  have hRow : dimensionTag m.nrow = .ok (Int32.ofNat m.nrow) := by
    simp [dimensionTag, hm.nrow_le]
  have hCol : dimensionTag m.ncol = .ok (Int32.ofNat m.ncol) := by
    simp [dimensionTag, hm.ncol_le]
  simp only [Script.namedMatrix, hShape, hRow, hCol, ne_eq, not_true_eq_false, if_false,
    labels_eq_ofCalls hm.rowNames, labels_eq_ofCalls hm.colNames, calls, contents, preamble,
    List.append_assoc, List.cons_append, List.nil_append, Script.ofCalls_cons,
    Script.ofCalls_append, Script.ofCalls_nil]
  exact ⟨_, rfl⟩

end NamedMatrix

namespace Call

theorem refusal_of_plain {c : Call} (hc : c.Plain) (hFits : c.tag.Fits)
    (innermost : Option Int32) : c.refusal innermost = none := by
  have hOversize : oversize c.tag = none := by simp [oversize, hFits.1]
  cases c with
  | startBlock kind => exact absurd rfl (hc kind).1
  | endBlock kind => exact absurd rfl (hc kind).2
  | writeInt _ _ | writeString _ _ | writeNameList _ _ => exact hOversize
  | writeFloatMatrix kind m =>
    simp only [refusal, if_pos (hFits.2 m rfl)]
    exact hOversize

theorem file_of_plain {c : Call} (hc : c.Plain) (e : DirEntry) (stack : List Node) :
    c.file e stack = fileInner e stack := by
  cases c with
  | startBlock kind => exact absurd rfl (hc kind).1
  | endBlock kind => exact absurd rfl (hc kind).2
  | writeInt _ _ | writeString _ _ | writeNameList _ _ | writeFloatMatrix _ _ => rfl

end Call

namespace Script

open Call

theorem run_ofCalls_plain {cs : List Call} (hcs : ∀ c ∈ cs, c.Plain ∧ c.tag.Fits)
    (rest : Script) {w : Writer} {b : Node} {stack : List Node} (hStack : w.stack = b :: stack) :
    ∃ w', (ofCalls cs rest).run w = rest.run w' ∧
      w'.bytes = w.bytes ++ Tag.stream (cs.map Call.tag) ∧
      w'.pos = w.pos + (Tag.stream (cs.map Call.tag)).length ∧
      w'.stack = { b with directory := b.directory ++ Tag.entries w.pos (cs.map Call.tag) } ::
        stack := by
  induction cs generalizing w b with
  | nil =>
    refine ⟨w, rfl, by simp, by simp, ?_⟩
    simp only [hStack, List.map_nil, Tag.entries, List.append_nil]
    cases b
    rfl
  | cons c cs ih =>
    obtain ⟨hPlain, hFits⟩ := hcs c List.mem_cons_self
    obtain ⟨w₁, hRun⟩ := perform_ok_iff.mpr (refusal_of_plain hPlain hFits w.innermost)
    have hAcc := perform_run c w
    rw [hRun] at hAcc
    have hStack₁ : w₁.stack =
        { b with directory := b.directory ++ [c.tag.entryAt w.pos] } :: stack := by
      rw [hAcc.2.stack, file_of_plain hPlain, hStack]
      rfl
    obtain ⟨w₂, hRun₂, hBytes, hPos, hStack₂⟩ :=
      ih (fun d hd => hcs d (List.mem_cons_of_mem c hd)) hStack₁
    refine ⟨w₂, ?_, ?_, ?_, ?_⟩
    · rw [ofCalls_cons, run_call_ok hRun, hRun₂]
    · rw [hBytes, hAcc.2.bytes, List.map_cons, Tag.stream_cons, List.append_assoc]
    · rw [hPos, hAcc.2.pos, List.map_cons, Tag.stream_cons, List.length_append, Nat.add_assoc]
    · rw [hStack₂, hAcc.2.pos]
      simp [Tag.entries, List.append_assoc]

end Script

namespace NamedMatrix

open Call

theorem preamble_plain {m : NamedMatrix}
    (hRows : (TagData.string (Labels.join m.rowNames)).encode.length ≤ maxPayload)
    (hCols : (TagData.string (Labels.join m.colNames)).encode.length ≤ maxPayload) :
    ∀ c ∈ preamble m, c.Plain ∧ c.tag.Fits := by
  have hLabels : ∀ k names, (TagData.string (Labels.join names)).encode.length ≤ maxPayload →
      ∀ c ∈ labelCall k names, c.Plain ∧ c.tag.Fits := by
    intro k names hLength c hc
    unfold labelCall at hc
    split at hc
    · cases hc
    · rw [List.mem_singleton.mp hc]
      exact ⟨fun _ => by simp, hLength, fun _ h => by cases h⟩
  intro c hc
  simp only [preamble, List.mem_append, List.mem_cons, List.not_mem_nil, or_false] at hc
  rcases hc with ((rfl | rfl) | hc) | hc
  · exact ⟨fun _ => by simp, fits_int _ _⟩
  · exact ⟨fun _ => by simp, fits_int _ _⟩
  · exact hLabels _ _ hRows c hc
  · exact hLabels _ _ hCols c hc

theorem contents_plain (kind : Int32) {m : NamedMatrix} (hm : m.WellFormed) (hFit : m.PayloadsFit) :
    ∀ c ∈ contents kind m, c.Plain ∧ c.tag.Fits := by
  intro c hc
  rcases List.mem_append.mp hc with hc | hc
  · exact preamble_plain hFit.rowNames hFit.colNames c hc
  · rw [List.mem_singleton.mp hc]
    refine ⟨fun _ => by simp, hFit.data, fun d hd => ?_⟩
    cases hd
    exact ⟨hm.rows ▸ hm.nrow_le, hm.cols ▸ hm.ncol_le⟩

def opening (m : NamedMatrix) : List Call := .startBlock Block.namedMatrix :: preamble m

theorem calls_eq_opening (kind : Int32) (m : NamedMatrix) :
    calls kind m = opening m ++ [.writeFloatMatrix kind m.data, .endBlock Block.namedMatrix] := by
  simp [calls, contents, opening]

theorem writeNamedMatrix_opens (kind : Int32) {m : NamedMatrix} (hm : m.WellFormed)
    (hRows : (TagData.string (Labels.join m.rowNames)).encode.length ≤ maxPayload)
    (hCols : (TagData.string (Labels.join m.colNames)).encode.length ≤ maxPayload)
    {w : Writer} {root : Node} (hStack : w.stack = [root]) :
    ∃ w', (writeNamedMatrix kind m).run w = (Script.ofCalls
        [.writeFloatMatrix kind m.data, .endBlock Block.namedMatrix] .done).run w' ∧
      w'.bytes = w.bytes ++ Tag.stream ((opening m).map Call.tag) ∧
      w'.pos = w.pos + (Tag.stream ((opening m).map Call.tag)).length ∧
      w'.stack = ⟨Block.namedMatrix, Tag.entries w.pos ((opening m).map Call.tag), []⟩ :: [root] := by
  obtain ⟨n, hScript⟩ := namedMatrix_eq hm kind
  have hRun : (writeNamedMatrix kind m).run w =
      (Script.ofCalls (calls kind m) .done).run (Journal.note w n) := by
    rw [Script.writeNamedMatrix_eq_run, hScript]
    rfl
  set w₀ : Writer := Journal.note w n
  have hOpen := perform_run (.startBlock Block.namedMatrix) w₀
  have hStart : (Call.startBlock Block.namedMatrix).refusal w₀.innermost = none :=
    oversize_int _ _
  obtain ⟨w₁, hRun₁⟩ := perform_ok_iff.mpr hStart
  rw [hRun₁] at hOpen
  have hStack₁ : w₁.stack = ⟨Block.namedMatrix,
      [(Call.startBlock Block.namedMatrix).tag.entryAt w.pos], []⟩ :: [root] := by
    rw [hOpen.2.stack]
    exact congrArg (_ :: ·) hStack
  obtain ⟨w₂, hRun₂, hBytes₂, hPos₂, hStack₂⟩ :=
    Script.run_ofCalls_plain (preamble_plain hRows hCols)
      (Script.ofCalls [.writeFloatMatrix kind m.data, .endBlock Block.namedMatrix] .done) hStack₁
  refine ⟨w₂, ?_, ?_, ?_, ?_⟩
  · rw [hRun, calls_eq_opening, opening, Script.ofCalls_append, Script.ofCalls_cons,
      Script.run_call_ok hRun₁, hRun₂]
  · rw [hBytes₂, hOpen.2.bytes, opening, List.map_cons, Tag.stream_cons, List.append_assoc]
    rfl
  · rw [hPos₂, hOpen.2.pos, opening, List.map_cons, Tag.stream_cons, List.length_append,
      Nat.add_assoc]
    rfl
  · rw [hStack₂, hOpen.2.pos, opening, List.map_cons]
    rfl

theorem writeNamedMatrix_top (kind : Int32) {m : NamedMatrix} (hm : m.WellFormed)
    (hFit : m.PayloadsFit) {w : Writer} {root : Node} (hStack : w.stack = [root]) :
    ∃ w', (writeNamedMatrix kind m).run w = .ok () w' ∧
      w'.bytes = w.bytes ++ Tag.stream ((calls kind m).map Call.tag) ∧
      w'.pos = w.pos + (Tag.stream ((calls kind m).map Call.tag)).length ∧
      w'.stack = [{ root with children := root.children ++ [block w.pos kind m] }] := by
  obtain ⟨w₂, hRun₂, hBytes₂, hPos₂, hStack₂⟩ :=
    writeNamedMatrix_opens kind hm hFit.rowNames hFit.colNames hStack
  have hData : ∀ c ∈ [Call.writeFloatMatrix kind m.data], c.Plain ∧ c.tag.Fits := fun c hc =>
    contents_plain kind hm hFit c (List.mem_append_right _ hc)
  obtain ⟨w₃, hRun₃, hBytes₃, hPos₃, hStack₃⟩ :=
    Script.run_ofCalls_plain hData (.call (.endBlock Block.namedMatrix) .done) hStack₂
  have hInner : w₃.innermost = some Block.namedMatrix := by
    simp [Writer.innermost, hStack₃]
  have hClose := perform_run (.endBlock Block.namedMatrix) w₃
  obtain ⟨w₄, hRun₄⟩ := perform_ok_iff.mpr (refusal_endBlock_eq_none.mpr hInner)
  rw [hRun₄] at hClose
  refine ⟨w₄, ?_, ?_, ?_, ?_⟩
  · rw [hRun₂]
    exact hRun₃.trans (Script.run_call_ok hRun₄)
  · rw [hClose.2.bytes, hBytes₃, hBytes₂, calls_eq_opening]
    simp [Tag.stream_append, Tag.stream_cons, List.append_assoc]
  · rw [hClose.2.pos, hPos₃, hPos₂, calls_eq_opening]
    simp [Tag.stream_append, Tag.stream_cons, Nat.add_assoc]
  · rw [hClose.2.stack, hStack₃, hPos₃, hPos₂]
    simp [Call.file, fileInner, block, calls_eq_opening, Tag.entries_append, Tag.entries,
      Tag.stream_cons, Nat.add_assoc]

theorem writeNamedMatrix_data_too_large (kind : Int32) {m : NamedMatrix} (hm : m.WellFormed)
    (hRows : (TagData.string (Labels.join m.rowNames)).encode.length ≤ maxPayload)
    (hCols : (TagData.string (Labels.join m.colNames)).encode.length ≤ maxPayload)
    (hData : maxPayload < m.data.encode.length) {w : Writer} {root : Node}
    (hStack : w.stack = [root]) :
    ∃ w', (writeNamedMatrix kind m).run w =
        .error (.tag (.payloadTooLarge kind m.data.encode.length)) w' ∧ w'.depth = 1 := by
  obtain ⟨w₂, hRun₂, -, -, hStack₂⟩ := writeNamedMatrix_opens kind hm hRows hCols hStack
  have hRefusal : (Call.writeFloatMatrix kind m.data).refusal w₂.innermost =
      some (.payloadTooLarge kind m.data.encode.length) := by
    simp only [refusal, if_pos (And.intro (hm.rows ▸ hm.nrow_le) (hm.cols ▸ hm.ncol_le)),
      oversize]
    split
    · rename_i hFits
      exact absurd hFits (Nat.not_le.mpr hData)
    · rfl
  obtain ⟨w₃, hRun₃, hUnchanged⟩ := perform_error_of_refusal hRefusal
  refine ⟨w₃, ?_, ?_⟩
  · rw [hRun₂, Script.ofCalls_cons, Script.run_call_error hRun₃]
  · simp [Writer.depth, hUnchanged.stack, hStack₂]

def callsAll (ms : List (Int32 × NamedMatrix)) : List Call := ms.flatMap fun p => calls p.1 p.2

theorem callsAll_cons (kind : Int32) (m : NamedMatrix) (ms : List (Int32 × NamedMatrix)) :
    callsAll ((kind, m) :: ms) = calls kind m ++ callsAll ms := List.flatMap_cons ..

def blocks : Nat → List (Int32 × NamedMatrix) → List Node
  | _, [] => []
  | pos, (kind, m) :: ms =>
    block pos kind m :: blocks (pos + (Tag.stream ((calls kind m).map Call.tag)).length) ms

end NamedMatrix

section

variable {σ : Type} [TagWrite σ] [Journal σ]

/-- Writes labelled matrices one after another, each under its kind, up to the first that
fails. -/
def writeNamedMatrices (ms : List (Int32 × NamedMatrix)) : EStateM MatrixError σ Unit :=
  ms.forM fun p => writeNamedMatrix p.1 p.2

variable {kind : Int32} {m : NamedMatrix} {ms : List (Int32 × NamedMatrix)} {s s' : σ}

theorem writeNamedMatrices_cons_ok (h : (writeNamedMatrix kind m).run s = .ok () s') :
    (writeNamedMatrices ((kind, m) :: ms)).run s = (writeNamedMatrices ms).run s' := by
  simp only [writeNamedMatrices, List.forM, EStateM.run_bind, h]

theorem writeNamedMatrices_cons_error {e : MatrixError}
    (h : (writeNamedMatrix kind m).run s = .error e s') :
    (writeNamedMatrices ((kind, m) :: ms)).run s = .error e s' := by
  simp only [writeNamedMatrices, List.forM, EStateM.run_bind, h]

end

namespace NamedMatrix

theorem writeNamedMatrices_top {ms : List (Int32 × NamedMatrix)}
    (hms : ∀ p ∈ ms, p.2.WellFormed ∧ p.2.PayloadsFit) {w : Writer} {root : Node}
    (hStack : w.stack = [root]) :
    ∃ w', (writeNamedMatrices ms).run w = .ok () w' ∧
      w'.bytes = w.bytes ++ Tag.stream ((callsAll ms).map Call.tag) ∧
      w'.pos = w.pos + (Tag.stream ((callsAll ms).map Call.tag)).length ∧
      w'.stack = [{ root with children := root.children ++ blocks w.pos ms }] := by
  induction ms generalizing w root with
  | nil =>
    refine ⟨w, rfl, by simp [callsAll], by simp [callsAll], ?_⟩
    rw [hStack, blocks, List.append_nil]
    cases root
    rfl
  | cons p ms ih =>
    obtain ⟨kind, m⟩ := p
    obtain ⟨hm, hFit⟩ : m.WellFormed ∧ m.PayloadsFit := hms (kind, m) List.mem_cons_self
    obtain ⟨w₁, hRun₁, hBytes₁, hPos₁, hStack₁⟩ :=
      writeNamedMatrix_top kind hm hFit hStack
    obtain ⟨w₂, hRun₂, hBytes₂, hPos₂, hStack₂⟩ :=
      ih (fun q hq => hms q (List.mem_cons_of_mem _ hq)) hStack₁
    refine ⟨w₂, ?_, ?_, ?_, ?_⟩
    · rw [writeNamedMatrices_cons_ok hRun₁, hRun₂]
    · rw [hBytes₂, hBytes₁]
      rw [callsAll_cons, List.map_append, Tag.stream_append, List.append_assoc]
    · rw [hPos₂, hPos₁]
      rw [callsAll_cons, List.map_append, Tag.stream_append, List.length_append, Nat.add_assoc]
    · rw [hStack₂, hPos₁]
      simp [blocks]

theorem writeNamedMatrices_finish {ms : List (Int32 × NamedMatrix)}
    (hms : ∀ p ∈ ms, p.2.WellFormed ∧ p.2.PayloadsFit) :
    ∃ w, (writeNamedMatrices ms).run Writer.new = .ok () w ∧
      w.finish =
        .ok (Tag.stream ((callsAll ms).map Call.tag), ⟨Block.root, [], blocks 0 ms⟩) := by
  obtain ⟨w, hRun, hBytes, -, hStack⟩ := writeNamedMatrices_top hms (w := Writer.new) rfl
  refine ⟨w, hRun, ?_⟩
  simp [Writer.finish, Writer.depth, hStack, hBytes, Writer.new, Node.empty]

/-- A column of 536870909 zeros without labels. Its data payload takes four bytes an entry and
twelve more, 2147483648 bytes: one more than a header can declare. -/
def tallColumn : NamedMatrix :=
  ⟨536870909, 1, [], [],
    ⟨536870909, 1, List.replicate 536870909 ⟨0⟩,
      (List.length_replicate ..).trans (Nat.mul_one _).symm⟩⟩

/-- A well-formed labelled matrix under a kind its block does not use is not always written:
the column `tallColumn` stops at its data tag. -/
theorem tall_column_not_written :
    tallColumn.WellFormed ∧ (3562 : Int32) ∉ reservedKinds ∧
      ∃ w, (writeNamedMatrices [((3562 : Int32), tallColumn)]).run Writer.new =
        .error (.tag (.payloadTooLarge 3562 2147483648)) w := by
  have hm : tallColumn.WellFormed := ⟨rfl, rfl, by decide, by decide, .inl rfl, .inl rfl⟩
  have hLength : tallColumn.data.encode.length = 2147483648 := by
    rw [Matrix.length_encode, Matrix.length_entries]
    rfl
  have hNoLabels : (TagData.string (Labels.join [])).encode.length ≤ maxPayload := by
    simp [Labels.join, TagData.encode, maxPayload]
  obtain ⟨w, hRun, -⟩ := writeNamedMatrix_data_too_large 3562 hm hNoLabels hNoLabels
    (by rw [hLength]; decide) (w := Writer.new) rfl
  refine ⟨hm, by decide, w, ?_⟩
  rw [← hLength]
  exact writeNamedMatrices_cons_error hRun

end NamedMatrix

end Fiff
