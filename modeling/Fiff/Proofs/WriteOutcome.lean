import Fiff.Proofs.NamedWrite

/-!
# What a labelled-matrix write does, case by case

A script plans its calls: `Script.calls` are the calls it makes when each of them succeeds, and
`Script.ending` is how it then ends, with nothing or with the error of a failed check. On a
traced sink a run follows that plan up to the first call that fails: every call before it
succeeded, and the run stops with that call's error wrapped as a tag error.

A labelled-matrix write plans, in the order of its checks: nothing when the exact product of
the counts is not the number of entries, nothing when a count does not fit a signed word, the
opening tag and the two count tags when a label list has the wrong length, and otherwise the
whole block. On a stream writer the calls of the block are refused only for a label list or a
data payload that a header cannot declare, or a matrix whose own dimensions do not fit a signed
word; the main statement, `named_matrix_write_outcome`, gives the error and the bytes written
in each case.
-/

set_option autoImplicit false

namespace Fiff

namespace Script

/-- The calls a script makes when each of them succeeds, in order. -/
def calls : Script → List Call
  | done => []
  | fail _ => []
  | note _ rest => rest.calls
  | call c rest => c :: rest.calls

/-- How a script ends when each of its calls succeeds: with nothing, or with the error of a
failed check. -/
def ending : Script → Option MatrixError
  | done => none
  | fail e => some e
  | note _ rest => rest.ending
  | call _ rest => rest.ending

def endWith {σ : Type} : Option MatrixError → σ → EStateM.Result MatrixError σ Unit
  | none, s => .ok () s
  | some e, s => .error e s

@[simp] theorem calls_ofCalls (cs : List Call) (rest : Script) :
    (ofCalls cs rest).calls = cs ++ rest.calls := by
  induction cs with
  | nil => rfl
  | cons c cs ih => simp [calls, ih]

@[simp] theorem ending_ofCalls (cs : List Call) (rest : Script) :
    (ofCalls cs rest).ending = rest.ending := by
  induction cs with
  | nil => rfl
  | cons c cs ih => simp [ending, ih]

end Script

namespace Traced

variable {σ : Type}

/-- A run from the traced sink `t` follows the planned calls `cs` and the planned ending: either
it made every planned call, each succeeding, and ended as planned, or it made them up to one
that failed, all before it succeeding, and stopped with that call's error. -/
def Follows (t : Traced σ) (cs : List Call) (ending : Option MatrixError)
    (res : EStateM.Result MatrixError (Traced σ) Unit) : Prop :=
  (∃ t', res = Script.endWith ending t' ∧ t'.calls = t.calls ++ cs.map (·, .ok ())) ∨
    ∃ before c after e t', cs = before ++ c :: after ∧ res = .error (.tag e) t' ∧
      t'.calls = t.calls ++ before.map (·, .ok ()) ++ [(c, .error e)]

theorem Follows.cons {t t₁ : Traced σ} {c : Call} {cs : List Call} {ending : Option MatrixError}
    {res : EStateM.Result MatrixError (Traced σ) Unit}
    (hCall : t₁.calls = t.calls ++ [(c, .ok ())]) (h : t₁.Follows cs ending res) :
    t.Follows (c :: cs) ending res := by
  rcases h with ⟨t', hRes, hCalls⟩ | ⟨before, d, after, e, t', hSplit, hRes, hCalls⟩
  · exact .inl ⟨t', hRes, by simp [hCalls, hCall]⟩
  · exact .inr ⟨c :: before, d, after, e, t', by simp [hSplit], hRes, by simp [hCalls, hCall]⟩

variable [TagWrite σ] [Journal σ]

omit [Journal σ] in
theorem run_perform (c : Call) (t : Traced σ) :
    (c.perform : EStateM TagError (Traced σ) Unit).run t = match c.perform.run t.inner with
      | .ok () s => .ok () ⟨s, t.calls ++ [(c, .ok ())]⟩
      | .error e s => .error e ⟨s, t.calls ++ [(c, .error e)]⟩ := by
  rw [perform_call]
  rfl

theorem follows_run (sc : Script) (t : Traced σ) : t.Follows sc.calls sc.ending (sc.run t) := by
  induction sc generalizing t with
  | done => exact .inl ⟨t, rfl, by simp [Script.calls]⟩
  | fail e => exact .inl ⟨t, rfl, by simp [Script.calls]⟩
  | note n rest ih => exact ih (Journal.note t n)
  | call c rest ih =>
    have hRun := run_perform c t
    cases hInner : c.perform.run t.inner with
    | ok _ s =>
      rw [hInner] at hRun
      rw [Script.run_call_ok hRun]
      exact Follows.cons rfl (ih _)
    | error e s =>
      rw [hInner] at hRun
      rw [Script.run_call_error hRun]
      exact .inr ⟨[], c, rest.calls, e, _, rfl, rfl, by simp⟩

end Traced

/-! ## The plan of a labelled-matrix write -/

namespace NamedMatrix

/-- The checks of a labelled-matrix write on its counts pass: the exact product of the counts is
the number of entries, and each count fits a signed word. -/
structure CountsPass (m : NamedMatrix) : Prop where
  product : m.nrow * m.ncol = m.data.entries.length
  nrow_le : m.nrow ≤ Writer.maxDimension
  ncol_le : m.ncol ≤ Writer.maxDimension

def LabelsCounted (names : List String) (count : Nat) : Prop := names = [] ∨ names.length = count

def opened (m : NamedMatrix) : List Call :=
  [.startBlock Block.namedMatrix, .writeInt Kind.nrow (Int32.ofNat m.nrow),
    .writeInt Kind.ncol (Int32.ofNat m.ncol)]

/-- What a labelled-matrix write runs after its count tags: the label lists, the data and the
closing tag. -/
def afterCounts (kind : Int32) (m : NamedMatrix) : Script :=
  Script.labels Kind.rowNames .rows m.rowNames m.nrow <|
    Script.labels Kind.colNames .columns m.colNames m.ncol <|
      Script.ofCalls [.writeFloatMatrix kind m.data, .endBlock Block.namedMatrix] .done

theorem saturatingMul_eq_iff {a b n : Nat} (hn : n < wordMax) :
    saturatingMul a b = n ↔ a * b = n := by
  unfold saturatingMul
  omega

theorem calls_eq_opened (kind : Int32) (m : NamedMatrix) :
    calls kind m = opened m ++ labelCall Kind.rowNames m.rowNames ++
      labelCall Kind.colNames m.colNames ++
        [.writeFloatMatrix kind m.data, .endBlock Block.namedMatrix] := by
  simp [calls, contents, preamble, opened]

theorem labels_of_miscounted {κ : Int32} {axis : Axis} {names : List String} {count : Nat}
    (hNames : names ≠ []) (hCount : names.length ≠ count) (rest : Script) :
    Script.labels κ axis names count rest = .fail (.labelCountMismatch axis names.length count) := by
  unfold Script.labels
  rw [if_neg (by simpa using hNames), if_pos hCount]

theorem namedMatrix_of_saturated_overflow (kind : Int32) {m : NamedMatrix}
    (hSat : saturatingMul m.nrow m.ncol = m.data.entries.length)
    (hBig : Writer.maxDimension < m.nrow ∨ Writer.maxDimension < m.ncol) :
    Script.namedMatrix kind m = .fail (.dimensionOverflow
      (if Writer.maxDimension < m.nrow then m.nrow else m.ncol)) := by
  unfold Script.namedMatrix
  rw [if_neg (not_not.mpr hSat)]
  by_cases hRow : Writer.maxDimension < m.nrow
  · have hTag : dimensionTag m.nrow = .error (.dimensionOverflow m.nrow) := by
      simp [dimensionTag, Nat.not_le.mpr hRow]
    simp only [hTag, if_pos hRow]
  · have hRowTag : dimensionTag m.nrow = .ok (Int32.ofNat m.nrow) := by
      simp [dimensionTag, Nat.not_lt.mp hRow]
    have hColTag : dimensionTag m.ncol = .error (.dimensionOverflow m.ncol) := by
      simp [dimensionTag, hBig.resolve_left hRow]
    simp only [hRowTag, hColTag, if_neg hRow]

variable (kind : Int32) {m : NamedMatrix} (hLen : m.data.entries.length < wordMax)
include hLen

theorem namedMatrix_of_product_ne (h : m.nrow * m.ncol ≠ m.data.entries.length) :
    Script.namedMatrix kind m = .fail (.shapeMismatch m.nrow m.ncol (saturatingMul m.nrow m.ncol)
      m.data.entries.length (offByFactor (saturatingMul m.nrow m.ncol) m.data.entries.length)) := by
  have hSat : saturatingMul m.nrow m.ncol ≠ m.data.entries.length :=
    fun hEq => h ((saturatingMul_eq_iff hLen).mp hEq)
  unfold Script.namedMatrix
  rw [if_pos hSat]

theorem namedMatrix_of_overflow (hProduct : m.nrow * m.ncol = m.data.entries.length)
    (hBig : Writer.maxDimension < m.nrow ∨ Writer.maxDimension < m.ncol) :
    Script.namedMatrix kind m = .fail (.dimensionOverflow
      (if Writer.maxDimension < m.nrow then m.nrow else m.ncol)) :=
  namedMatrix_of_saturated_overflow kind ((saturatingMul_eq_iff hLen).mpr hProduct) hBig

theorem namedMatrix_of_countsPass (h : m.CountsPass) :
    ∃ n, Script.namedMatrix kind m = .note n (Script.ofCalls (opened m) (afterCounts kind m)) := by
  have hSat := (saturatingMul_eq_iff hLen).mpr h.product
  have hRow : dimensionTag m.nrow = .ok (Int32.ofNat m.nrow) := by simp [dimensionTag, h.nrow_le]
  have hCol : dimensionTag m.ncol = .ok (Int32.ofNat m.ncol) := by simp [dimensionTag, h.ncol_le]
  unfold Script.namedMatrix
  simp only [hSat, ne_eq, not_true_eq_false, if_false, hRow, hCol]
  exact ⟨_, rfl⟩

omit hLen

theorem afterCounts_of_rows_miscounted (hNames : m.rowNames ≠ [])
    (hCount : m.rowNames.length ≠ m.nrow) :
    afterCounts kind m = .fail (.labelCountMismatch .rows m.rowNames.length m.nrow) :=
  labels_of_miscounted hNames hCount _

theorem afterCounts_of_cols_miscounted (hRows : LabelsCounted m.rowNames m.nrow)
    (hNames : m.colNames ≠ []) (hCount : m.colNames.length ≠ m.ncol) :
    afterCounts kind m = Script.ofCalls (labelCall Kind.rowNames m.rowNames)
      (.fail (.labelCountMismatch .columns m.colNames.length m.ncol)) := by
  rw [afterCounts, labels_eq_ofCalls_of_length hRows, labels_of_miscounted hNames hCount]

theorem afterCounts_of_counted (hRows : LabelsCounted m.rowNames m.nrow)
    (hCols : LabelsCounted m.colNames m.ncol) :
    afterCounts kind m = Script.ofCalls (labelCall Kind.rowNames m.rowNames ++
      labelCall Kind.colNames m.colNames ++
        [.writeFloatMatrix kind m.data, .endBlock Block.namedMatrix]) .done := by
  rw [afterCounts, labels_eq_ofCalls_of_length hRows, labels_eq_ofCalls_of_length hCols,
    Script.ofCalls_append, Script.ofCalls_append]

end NamedMatrix

/-! ## On a stream writer -/

namespace Writer

/-- `w'` is `w` with the block of a labelled matrix open over its blocks and the calls `cs`
written into it: their frames appended, their entries in the open block. -/
structure InBlock (w : Writer) (cs : List Call) (w' : Writer) : Prop where
  bytes : w'.bytes = w.bytes ++ Tag.stream (cs.map Call.tag)
  pos : w'.pos = w.pos + (Tag.stream (cs.map Call.tag)).length
  stack : w'.stack = ⟨Block.namedMatrix, Tag.entries w.pos (cs.map Call.tag), []⟩ :: w.stack

@[simp] theorem note_bytes (w : Writer) (n : Note) : (Journal.note w n).bytes = w.bytes := rfl

@[simp] theorem note_pos (w : Writer) (n : Note) : (Journal.note w n).pos = w.pos := rfl

@[simp] theorem note_stack (w : Writer) (n : Note) : (Journal.note w n).stack = w.stack := rfl

variable {w w₁ w' : Writer} {cs : List Call}

theorem InBlock.depth (h : w.InBlock cs w') (hw : w.stack ≠ []) : w'.depth = w.depth + 1 := by
  have hLength : 0 < w.stack.length := List.length_pos_iff.mpr hw
  simp only [Writer.depth, h.stack, List.length_cons]
  omega

theorem InBlock.of_unchanged (h : w.InBlock cs w₁) (hUnchanged : w₁.Unchanged w') :
    w.InBlock cs w' :=
  ⟨hUnchanged.bytes ▸ h.bytes, hUnchanged.pos ▸ h.pos, hUnchanged.stack ▸ h.stack⟩

theorem InBlock.append_plain (h : w.InBlock cs w₁) {ds : List Call}
    (hds : ∀ c ∈ ds, c.Plain ∧ c.tag.Fits) (rest : Script) :
    ∃ w₂, (Script.ofCalls ds rest).run w₁ = rest.run w₂ ∧ w.InBlock (cs ++ ds) w₂ := by
  obtain ⟨w₂, hRun, hBytes, hPos, hStack⟩ := Script.run_ofCalls_plain hds rest h.stack
  refine ⟨w₂, hRun, ?_, ?_, ?_⟩
  · rw [hBytes, h.bytes, List.map_append, Tag.stream_append, List.append_assoc]
  · rw [hPos, h.pos, List.map_append, Tag.stream_append, List.length_append, Nat.add_assoc]
  · rw [hStack, h.pos, List.map_append, Tag.entries_append]

theorem InBlock.refused (h : w.InBlock cs w₁) {c : Call} {e : TagError}
    (hRefusal : c.refusal w₁.innermost = some e) (rest : Script) :
    ∃ w', (Script.call c rest).run w₁ = .error (.tag e) w' ∧ w.InBlock cs w' := by
  obtain ⟨w', hRun, hUnchanged⟩ := Call.perform_error_of_refusal hRefusal
  exact ⟨w', Script.run_call_error hRun, h.of_unchanged hUnchanged⟩

end Writer

namespace NamedMatrix

open Call

variable (kind : Int32) {m : NamedMatrix}

theorem writeNamedMatrix_opened (hLen : m.data.entries.length < wordMax) (h : m.CountsPass)
    (w : Writer) :
    ∃ w₃, (writeNamedMatrix kind m).run w = (afterCounts kind m).run w₃ ∧
      w.InBlock (opened m) w₃ := by
  obtain ⟨n, hScript⟩ := namedMatrix_of_countsPass kind hLen h
  have hRun : (writeNamedMatrix kind m).run w =
      (Script.ofCalls (opened m) (afterCounts kind m)).run (Journal.note w n) := by
    rw [Script.writeNamedMatrix_eq_run, hScript]
    rfl
  have hStart : (startBlock Block.namedMatrix).refusal (Journal.note w n).innermost = none :=
    oversize_int _ _
  obtain ⟨w₁, hRun₁⟩ := perform_ok_iff.mpr hStart
  have hOpen := perform_run (.startBlock Block.namedMatrix) (Journal.note w n)
  rw [hRun₁] at hOpen
  have h₁ : w.InBlock [.startBlock Block.namedMatrix] w₁ :=
    ⟨by rw [hOpen.2.bytes]; simp [Tag.stream], by rw [hOpen.2.pos]; simp [Tag.stream],
      by rw [hOpen.2.stack]; rfl⟩
  have hCounts : ∀ c ∈ [Call.writeInt Kind.nrow (Int32.ofNat m.nrow),
      .writeInt Kind.ncol (Int32.ofNat m.ncol)], c.Plain ∧ c.tag.Fits := by
    intro c hc
    simp only [List.mem_cons, List.not_mem_nil, or_false] at hc
    rcases hc with rfl | rfl <;> exact ⟨fun _ => by simp, fits_int _ _⟩
  obtain ⟨w₃, hRun₃, h₃⟩ := h₁.append_plain hCounts (afterCounts kind m)
  exact ⟨w₃, by rw [hRun, opened, Script.ofCalls_cons, Script.run_call_ok hRun₁, hRun₃], h₃⟩

def LabelsFit (names : List String) (count : Nat) : Prop :=
  names = [] ∨
    (names.length = count ∧ (TagData.string (Labels.join names)).encode.length ≤ maxPayload)

theorem LabelsFit.counted {names : List String} {count : Nat} (h : LabelsFit names count) :
    LabelsCounted names count :=
  h.imp_right And.left

theorem labelCall_plain {κ : Int32} {names : List String} {count : Nat}
    (h : LabelsFit names count) : ∀ c ∈ labelCall κ names, c.Plain ∧ c.tag.Fits := by
  intro c hc
  unfold labelCall at hc
  split at hc
  · cases hc
  · rename_i hEmpty
    rw [List.mem_singleton.mp hc]
    have hLength := (h.resolve_left (by simpa using hEmpty)).2
    exact ⟨fun _ => by simp, hLength, fun _ h => by cases h⟩

section

variable {w w₁ : Writer} {cs : List Call} {κ : Int32} {axis : Axis} {names : List String}
  {count : Nat}

theorem labels_run_fit (h : w.InBlock cs w₁) (hFit : LabelsFit names count) (rest : Script) :
    ∃ w₂, (Script.labels κ axis names count rest).run w₁ = rest.run w₂ ∧
      w.InBlock (cs ++ labelCall κ names) w₂ := by
  rw [labels_eq_ofCalls_of_length hFit.counted]
  exact h.append_plain (labelCall_plain hFit) rest

theorem labels_run_miscounted (hNames : names ≠ []) (hCount : names.length ≠ count)
    (rest : Script) (w₁ : Writer) :
    (Script.labels κ axis names count rest).run w₁ =
      .error (.labelCountMismatch axis names.length count) w₁ := by
  rw [labels_of_miscounted hNames hCount]
  rfl

theorem labels_run_too_long (h : w.InBlock cs w₁) (hNames : names ≠ [])
    (hCount : names.length = count)
    (hLong : maxPayload < (TagData.string (Labels.join names)).encode.length) (rest : Script) :
    ∃ w', (Script.labels κ axis names count rest).run w₁ = .error (.tag (.payloadTooLarge κ
      (TagData.string (Labels.join names)).encode.length)) w' ∧ w.InBlock cs w' := by
  have hScript : Script.labels κ axis names count rest = .call (.writeNameList κ names) rest := by
    rw [labels_eq_ofCalls_of_length (.inr hCount)]
    unfold labelCall
    rw [if_neg (by simpa using hNames)]
    rfl
  have hRefusal : (Call.writeNameList κ names).refusal w₁.innermost =
      some (.payloadTooLarge κ (TagData.string (Labels.join names)).encode.length) := by
    show oversize ⟨κ, .string (Labels.join names)⟩ = _
    unfold oversize
    rw [if_neg (Nat.not_le.mpr hLong)]
  rw [hScript]
  exact h.refused hRefusal rest

def dataCalls (kind : Int32) (d : Matrix) : List Call :=
  [.writeFloatMatrix kind d, .endBlock Block.namedMatrix]

theorem data_run_oversized (h : w.InBlock cs w₁) {d : Matrix}
    (hBig : Writer.maxDimension < d.rows ∨ Writer.maxDimension < d.cols) :
    ∃ w', (Script.ofCalls (dataCalls kind d) .done).run w₁ =
      .error (.tag (.malformedPayload kind (.oversizedMatrix d.rows d.cols))) w' ∧
        w.InBlock cs w' := by
  have hRefusal : (Call.writeFloatMatrix kind d).refusal w₁.innermost =
      some (.malformedPayload kind (.oversizedMatrix d.rows d.cols)) := by
    simp only [refusal]
    rw [if_neg (by omega)]
  exact h.refused hRefusal _

theorem data_run_too_long (h : w.InBlock cs w₁) {d : Matrix}
    (hDims : d.rows ≤ Writer.maxDimension ∧ d.cols ≤ Writer.maxDimension)
    (hLong : maxPayload < 4 * d.entries.length + 12) :
    ∃ w', (Script.ofCalls (dataCalls kind d) .done).run w₁ =
      .error (.tag (.payloadTooLarge kind (4 * d.entries.length + 12))) w' ∧ w.InBlock cs w' := by
  have hRefusal : (Call.writeFloatMatrix kind d).refusal w₁.innermost =
      some (.payloadTooLarge kind (4 * d.entries.length + 12)) := by
    simp only [refusal, if_pos hDims, oversize, TagData.encode, Matrix.length_encode]
    rw [if_neg (Nat.not_le.mpr hLong)]
  exact h.refused hRefusal _

theorem writeFloatMatrix_plain {d : Matrix}
    (hDims : d.rows ≤ Writer.maxDimension ∧ d.cols ≤ Writer.maxDimension)
    (hFits : 4 * d.entries.length + 12 ≤ maxPayload) :
    (Call.writeFloatMatrix kind d).Plain ∧ (Call.writeFloatMatrix kind d).tag.Fits := by
  refine ⟨fun _ => by simp, ?_, fun d' hd' => by cases hd'; exact hDims⟩
  simpa [Call.tag, TagData.encode, Matrix.length_encode] using hFits

theorem data_run_written (h : w.InBlock cs w₁) {d : Matrix}
    (hDims : d.rows ≤ Writer.maxDimension ∧ d.cols ≤ Writer.maxDimension)
    (hFits : 4 * d.entries.length + 12 ≤ maxPayload) {head : Node} {tail : List Node}
    (hStack : w.stack = head :: tail) :
    ∃ w', (Script.ofCalls (dataCalls kind d) .done).run w₁ = .ok () w' ∧
      w'.bytes = w.bytes ++ Tag.stream ((cs ++ dataCalls kind d).map Call.tag) ∧
      w'.pos = w.pos + (Tag.stream ((cs ++ dataCalls kind d).map Call.tag)).length ∧
      w'.stack = { head with children := head.children ++
        [⟨Block.namedMatrix, Tag.entries w.pos ((cs ++ dataCalls kind d).map Call.tag), []⟩] } ::
          tail := by
  have hData : ∀ c ∈ [Call.writeFloatMatrix kind d], c.Plain ∧ c.tag.Fits := by
    intro c hc
    rw [List.mem_singleton.mp hc]
    exact writeFloatMatrix_plain kind hDims hFits
  obtain ⟨w₂, hRun₂, h₂⟩ := h.append_plain hData (.call (.endBlock Block.namedMatrix) .done)
  have hInner : w₂.innermost = some Block.namedMatrix := by
    simp [Writer.innermost, h₂.stack, hStack]
  obtain ⟨w₃, hRun₃⟩ := perform_ok_iff.mpr (refusal_endBlock_eq_none.mpr hInner)
  have hClose := perform_run (.endBlock Block.namedMatrix) w₂
  rw [hRun₃] at hClose
  refine ⟨w₃, ?_, ?_, ?_, ?_⟩
  · show (Script.ofCalls [Call.writeFloatMatrix kind d]
      (.call (.endBlock Block.namedMatrix) .done)).run w₁ = _
    rw [hRun₂]
    exact Script.run_call_ok hRun₃
  · rw [hClose.2.bytes, h₂.bytes, dataCalls]
    simp [Tag.stream_append, Tag.stream_cons, List.append_assoc]
  · rw [hClose.2.pos, h₂.pos, dataCalls]
    simp [Tag.stream_append, Tag.stream_cons, Nat.add_assoc]
  · rw [hClose.2.stack, h₂.stack, hStack, dataCalls]
    simp [Call.file, fileInner, Tag.entries_append, Tag.entries, Tag.stream_append,
      Tag.stream_cons, h₂.pos, Nat.add_assoc]

end

/-! ## The outcome on a stream writer, check by check -/

section

variable (kind : Int32) {m : NamedMatrix} (hLen : m.data.entries.length < wordMax)
include hLen

theorem writeNamedMatrix_product_ne (h : m.nrow * m.ncol ≠ m.data.entries.length) (w : Writer) :
    (writeNamedMatrix kind m).run w = .error (.shapeMismatch m.nrow m.ncol
      (saturatingMul m.nrow m.ncol) m.data.entries.length
      (offByFactor (saturatingMul m.nrow m.ncol) m.data.entries.length)) w := by
  rw [Script.writeNamedMatrix_eq_run, namedMatrix_of_product_ne kind hLen h]
  rfl

theorem writeNamedMatrix_overflow (hProduct : m.nrow * m.ncol = m.data.entries.length)
    (hBig : Writer.maxDimension < m.nrow ∨ Writer.maxDimension < m.ncol) (w : Writer) :
    (writeNamedMatrix kind m).run w = .error (.dimensionOverflow
      (if Writer.maxDimension < m.nrow then m.nrow else m.ncol)) w := by
  rw [Script.writeNamedMatrix_eq_run, namedMatrix_of_overflow kind hLen hProduct hBig]
  rfl

variable (h : m.CountsPass) (w : Writer)
include h

theorem writeNamedMatrix_rows_miscounted (hNames : m.rowNames ≠ [])
    (hCount : m.rowNames.length ≠ m.nrow) :
    ∃ w', (writeNamedMatrix kind m).run w =
      .error (.labelCountMismatch .rows m.rowNames.length m.nrow) w' ∧ w.InBlock (opened m) w' := by
  obtain ⟨w₃, hRun, h₃⟩ := writeNamedMatrix_opened kind hLen h w
  rw [afterCounts_of_rows_miscounted kind hNames hCount] at hRun
  exact ⟨w₃, hRun, h₃⟩

theorem writeNamedMatrix_rows_too_long (hNames : m.rowNames ≠ [])
    (hCount : m.rowNames.length = m.nrow)
    (hLong : maxPayload < (TagData.string (Labels.join m.rowNames)).encode.length) :
    ∃ w', (writeNamedMatrix kind m).run w = .error (.tag (.payloadTooLarge Kind.rowNames
      (TagData.string (Labels.join m.rowNames)).encode.length)) w' ∧ w.InBlock (opened m) w' := by
  obtain ⟨w₃, hRun, h₃⟩ := writeNamedMatrix_opened kind hLen h w
  obtain ⟨w', hLabels, h'⟩ := labels_run_too_long h₃ hNames hCount hLong _
  exact ⟨w', hRun.trans hLabels, h'⟩

theorem writeNamedMatrix_rows_fit (hRows : LabelsFit m.rowNames m.nrow) :
    ∃ w₄, (writeNamedMatrix kind m).run w = (Script.labels Kind.colNames .columns m.colNames m.ncol
        (Script.ofCalls (dataCalls kind m.data) .done)).run w₄ ∧
      w.InBlock (opened m ++ labelCall Kind.rowNames m.rowNames) w₄ := by
  obtain ⟨w₃, hRun, h₃⟩ := writeNamedMatrix_opened kind hLen h w
  obtain ⟨w₄, hLabels, h₄⟩ := labels_run_fit h₃ hRows _
  exact ⟨w₄, hRun.trans hLabels, h₄⟩

theorem writeNamedMatrix_cols_miscounted (hRows : LabelsFit m.rowNames m.nrow)
    (hNames : m.colNames ≠ []) (hCount : m.colNames.length ≠ m.ncol) :
    ∃ w', (writeNamedMatrix kind m).run w =
      .error (.labelCountMismatch .columns m.colNames.length m.ncol) w' ∧
        w.InBlock (opened m ++ labelCall Kind.rowNames m.rowNames) w' := by
  obtain ⟨w₄, hRun, h₄⟩ := writeNamedMatrix_rows_fit kind hLen h w hRows
  exact ⟨w₄, hRun.trans (labels_run_miscounted hNames hCount _ _), h₄⟩

theorem writeNamedMatrix_cols_too_long (hRows : LabelsFit m.rowNames m.nrow)
    (hNames : m.colNames ≠ []) (hCount : m.colNames.length = m.ncol)
    (hLong : maxPayload < (TagData.string (Labels.join m.colNames)).encode.length) :
    ∃ w', (writeNamedMatrix kind m).run w = .error (.tag (.payloadTooLarge Kind.colNames
      (TagData.string (Labels.join m.colNames)).encode.length)) w' ∧
        w.InBlock (opened m ++ labelCall Kind.rowNames m.rowNames) w' := by
  obtain ⟨w₄, hRun, h₄⟩ := writeNamedMatrix_rows_fit kind hLen h w hRows
  obtain ⟨w', hLabels, h'⟩ := labels_run_too_long h₄ hNames hCount hLong _
  exact ⟨w', hRun.trans hLabels, h'⟩

theorem writeNamedMatrix_labels_fit (hRows : LabelsFit m.rowNames m.nrow)
    (hCols : LabelsFit m.colNames m.ncol) :
    ∃ w₅, (writeNamedMatrix kind m).run w = (Script.ofCalls (dataCalls kind m.data) .done).run w₅ ∧
      w.InBlock (opened m ++ labelCall Kind.rowNames m.rowNames ++
        labelCall Kind.colNames m.colNames) w₅ := by
  obtain ⟨w₄, hRun, h₄⟩ := writeNamedMatrix_rows_fit kind hLen h w hRows
  obtain ⟨w₅, hLabels, h₅⟩ := labels_run_fit h₄ hCols _
  exact ⟨w₅, hRun.trans hLabels, h₅⟩

variable (hRows : LabelsFit m.rowNames m.nrow) (hCols : LabelsFit m.colNames m.ncol)
include hRows hCols

theorem writeNamedMatrix_data_oversized
    (hBig : Writer.maxDimension < m.data.rows ∨ Writer.maxDimension < m.data.cols) :
    ∃ w', (writeNamedMatrix kind m).run w =
      .error (.tag (.malformedPayload kind (.oversizedMatrix m.data.rows m.data.cols))) w' ∧
        w.InBlock (opened m ++ labelCall Kind.rowNames m.rowNames ++
          labelCall Kind.colNames m.colNames) w' := by
  obtain ⟨w₅, hRun, h₅⟩ := writeNamedMatrix_labels_fit kind hLen h w hRows hCols
  obtain ⟨w', hData, h'⟩ := data_run_oversized kind h₅ hBig
  exact ⟨w', hRun.trans hData, h'⟩

theorem writeNamedMatrix_data_too_long
    (hDims : m.data.rows ≤ Writer.maxDimension ∧ m.data.cols ≤ Writer.maxDimension)
    (hLong : maxPayload < 4 * m.data.entries.length + 12) :
    ∃ w', (writeNamedMatrix kind m).run w =
      .error (.tag (.payloadTooLarge kind (4 * m.data.entries.length + 12))) w' ∧
        w.InBlock (opened m ++ labelCall Kind.rowNames m.rowNames ++
          labelCall Kind.colNames m.colNames) w' := by
  obtain ⟨w₅, hRun, h₅⟩ := writeNamedMatrix_labels_fit kind hLen h w hRows hCols
  obtain ⟨w', hData, h'⟩ := data_run_too_long kind h₅ hDims hLong
  exact ⟨w', hRun.trans hData, h'⟩

theorem writeNamedMatrix_written
    (hDims : m.data.rows ≤ Writer.maxDimension ∧ m.data.cols ≤ Writer.maxDimension)
    (hFits : 4 * m.data.entries.length + 12 ≤ maxPayload) {head : Node} {tail : List Node}
    (hStack : w.stack = head :: tail) :
    ∃ w', (writeNamedMatrix kind m).run w = .ok () w' ∧
      w'.bytes = w.bytes ++ Tag.stream ((calls kind m).map Call.tag) ∧
      w'.pos = w.pos + (Tag.stream ((calls kind m).map Call.tag)).length ∧
      w'.stack = { head with children := head.children ++ [block w.pos kind m] } :: tail := by
  obtain ⟨w₅, hRun, h₅⟩ := writeNamedMatrix_labels_fit kind hLen h w hRows hCols
  obtain ⟨w', hData, hBytes, hPos, hStack'⟩ := data_run_written kind h₅ hDims hFits hStack
  have hCalls : opened m ++ labelCall Kind.rowNames m.rowNames ++
      labelCall Kind.colNames m.colNames ++ dataCalls kind m.data = calls kind m :=
    (calls_eq_opened kind m).symm
  rw [hCalls] at hBytes hPos hStack'
  exact ⟨w', hRun.trans hData, hBytes, hPos, hStack'⟩

end

/-! ## The outcome, check by check -/

/-- The error of a write whose counts do not multiply to the number of entries: the saturated
product against the number of entries. -/
def shapeError (m : NamedMatrix) : MatrixError :=
  .shapeMismatch m.nrow m.ncol (saturatingMul m.nrow m.ncol) m.data.entries.length
    (offByFactor (saturatingMul m.nrow m.ncol) m.data.entries.length)

/-- The error of a write whose counts do not both fit a signed word: it names the row count when
that one does not fit, the column count otherwise. -/
def overflowError (m : NamedMatrix) : MatrixError :=
  .dimensionOverflow (if Writer.maxDimension < m.nrow then m.nrow else m.ncol)

/-- What a labelled-matrix write does from the traced sink `t`: the sink sees the same run as
without the trace, and, in the order of the checks, the calls follow the plan of the first check
that fails, or the whole block when none does. -/
structure TracedOutcome (kind : Int32) (m : NamedMatrix) {σ : Type} [TagWrite σ] [Journal σ]
    (t : Traced σ) : Prop where
  project : Traced.project ((writeNamedMatrix kind m).run t) = (writeNamedMatrix kind m).run t.inner
  shape : m.nrow * m.ncol ≠ m.data.entries.length →
    t.Follows [] (some m.shapeError) ((writeNamedMatrix kind m).run t)
  overflow : m.nrow * m.ncol = m.data.entries.length →
    (Writer.maxDimension < m.nrow ∨ Writer.maxDimension < m.ncol) →
    t.Follows [] (some m.overflowError) ((writeNamedMatrix kind m).run t)
  rowCount : m.CountsPass → m.rowNames ≠ [] → m.rowNames.length ≠ m.nrow →
    t.Follows (opened m) (some (.labelCountMismatch .rows m.rowNames.length m.nrow))
      ((writeNamedMatrix kind m).run t)
  colCount : m.CountsPass → LabelsCounted m.rowNames m.nrow → m.colNames ≠ [] →
    m.colNames.length ≠ m.ncol →
    t.Follows (opened m ++ labelCall Kind.rowNames m.rowNames)
      (some (.labelCountMismatch .columns m.colNames.length m.ncol))
      ((writeNamedMatrix kind m).run t)
  block : m.CountsPass → LabelsCounted m.rowNames m.nrow → LabelsCounted m.colNames m.ncol →
    t.Follows (calls kind m) none ((writeNamedMatrix kind m).run t)

/-- What a labelled-matrix write does on the stream writer `w`, in the order of the checks: a
failed count check leaves the writer as it was; a label list or data payload that is refused
leaves the block open over the blocks of `w`, holding the tags written before it; and a matrix
that passes every check is written as one closed block, handed to the innermost open block. -/
structure WriterOutcome (kind : Int32) (m : NamedMatrix) (w : Writer) : Prop where
  shape : m.nrow * m.ncol ≠ m.data.entries.length →
    (writeNamedMatrix kind m).run w = .error m.shapeError w
  overflow : m.nrow * m.ncol = m.data.entries.length →
    (Writer.maxDimension < m.nrow ∨ Writer.maxDimension < m.ncol) →
    (writeNamedMatrix kind m).run w = .error m.overflowError w
  rowCount : m.CountsPass → m.rowNames ≠ [] → m.rowNames.length ≠ m.nrow →
    ∃ w', (writeNamedMatrix kind m).run w =
      .error (.labelCountMismatch .rows m.rowNames.length m.nrow) w' ∧ w.InBlock (opened m) w'
  rowSize : m.CountsPass → m.rowNames ≠ [] → m.rowNames.length = m.nrow →
    maxPayload < (TagData.string (Labels.join m.rowNames)).encode.length →
    ∃ w', (writeNamedMatrix kind m).run w = .error (.tag (.payloadTooLarge Kind.rowNames
      (TagData.string (Labels.join m.rowNames)).encode.length)) w' ∧ w.InBlock (opened m) w'
  colCount : m.CountsPass → LabelsFit m.rowNames m.nrow → m.colNames ≠ [] →
    m.colNames.length ≠ m.ncol →
    ∃ w', (writeNamedMatrix kind m).run w =
      .error (.labelCountMismatch .columns m.colNames.length m.ncol) w' ∧
        w.InBlock (opened m ++ labelCall Kind.rowNames m.rowNames) w'
  colSize : m.CountsPass → LabelsFit m.rowNames m.nrow → m.colNames ≠ [] →
    m.colNames.length = m.ncol →
    maxPayload < (TagData.string (Labels.join m.colNames)).encode.length →
    ∃ w', (writeNamedMatrix kind m).run w = .error (.tag (.payloadTooLarge Kind.colNames
      (TagData.string (Labels.join m.colNames)).encode.length)) w' ∧
        w.InBlock (opened m ++ labelCall Kind.rowNames m.rowNames) w'
  dataShape : m.CountsPass → LabelsFit m.rowNames m.nrow → LabelsFit m.colNames m.ncol →
    (Writer.maxDimension < m.data.rows ∨ Writer.maxDimension < m.data.cols) →
    ∃ w', (writeNamedMatrix kind m).run w =
      .error (.tag (.malformedPayload kind (.oversizedMatrix m.data.rows m.data.cols))) w' ∧
        w.InBlock (opened m ++ labelCall Kind.rowNames m.rowNames ++
          labelCall Kind.colNames m.colNames) w'
  dataSize : m.CountsPass → LabelsFit m.rowNames m.nrow → LabelsFit m.colNames m.ncol →
    (m.data.rows ≤ Writer.maxDimension ∧ m.data.cols ≤ Writer.maxDimension) →
    maxPayload < 4 * m.data.entries.length + 12 →
    ∃ w', (writeNamedMatrix kind m).run w =
      .error (.tag (.payloadTooLarge kind (4 * m.data.entries.length + 12))) w' ∧
        w.InBlock (opened m ++ labelCall Kind.rowNames m.rowNames ++
          labelCall Kind.colNames m.colNames) w'
  written : m.CountsPass → LabelsFit m.rowNames m.nrow → LabelsFit m.colNames m.ncol →
    (m.data.rows ≤ Writer.maxDimension ∧ m.data.cols ≤ Writer.maxDimension) →
    4 * m.data.entries.length + 12 ≤ maxPayload → ∀ head tail, w.stack = head :: tail →
    ∃ w', (writeNamedMatrix kind m).run w = .ok () w' ∧
      w'.bytes = w.bytes ++ Tag.stream ((calls kind m).map Call.tag) ∧
      w'.pos = w.pos + (Tag.stream ((calls kind m).map Call.tag)).length ∧
      w'.stack = { head with children := head.children ++ [block w.pos kind m] } :: tail ∧
      w'.depth = w.depth

theorem follows_namedMatrix {σ : Type} [TagWrite σ] [Journal σ] (kind : Int32) (m : NamedMatrix)
    (t : Traced σ) :
    t.Follows (Script.namedMatrix kind m).calls (Script.namedMatrix kind m).ending
      ((writeNamedMatrix kind m).run t) := by
  rw [Script.writeNamedMatrix_eq_run]
  exact Traced.follows_run _ t

section

variable (kind : Int32) {m : NamedMatrix} (hLen : m.data.entries.length < wordMax)
include hLen

theorem follows_of_countsPass {σ : Type} [TagWrite σ] [Journal σ] (h : m.CountsPass)
    (t : Traced σ) :
    t.Follows (opened m ++ (afterCounts kind m).calls) (afterCounts kind m).ending
      ((writeNamedMatrix kind m).run t) := by
  have hFollows := follows_namedMatrix kind m t
  obtain ⟨n, hScript⟩ := namedMatrix_of_countsPass kind hLen h
  simp only [hScript, Script.calls, Script.ending, Script.calls_ofCalls,
    Script.ending_ofCalls] at hFollows
  exact hFollows

theorem tracedOutcome {σ : Type} [TagWrite σ] [Journal σ] (t : Traced σ) :
    m.TracedOutcome kind t where
  project := by
    rw [Script.writeNamedMatrix_eq_run, Script.writeNamedMatrix_eq_run]
    exact Traced.project_run _ t
  shape hShape := by
    have h := follows_namedMatrix kind m t
    rwa [namedMatrix_of_product_ne kind hLen hShape] at h
  overflow hProduct hBig := by
    have h := follows_namedMatrix kind m t
    rwa [namedMatrix_of_overflow kind hLen hProduct hBig] at h
  rowCount hCounts hNames hCount := by
    have h := follows_of_countsPass kind hLen hCounts t
    rw [afterCounts_of_rows_miscounted kind hNames hCount] at h
    simpa [Script.calls, Script.ending] using h
  colCount hCounts hRows hNames hCount := by
    have h := follows_of_countsPass kind hLen hCounts t
    rw [afterCounts_of_cols_miscounted kind hRows hNames hCount] at h
    simpa [Script.calls, Script.ending] using h
  block hCounts hRows hCols := by
    have h := follows_of_countsPass kind hLen hCounts t
    rw [afterCounts_of_counted kind hRows hCols] at h
    simpa [Script.calls, Script.ending, calls_eq_opened] using h

theorem writerOutcome (w : Writer) : m.WriterOutcome kind w where
  shape hShape := writeNamedMatrix_product_ne kind hLen hShape w
  overflow hProduct hBig := writeNamedMatrix_overflow kind hLen hProduct hBig w
  rowCount hCounts := writeNamedMatrix_rows_miscounted kind hLen hCounts w
  rowSize hCounts := writeNamedMatrix_rows_too_long kind hLen hCounts w
  colCount hCounts := writeNamedMatrix_cols_miscounted kind hLen hCounts w
  colSize hCounts := writeNamedMatrix_cols_too_long kind hLen hCounts w
  dataShape hCounts hRows hCols := writeNamedMatrix_data_oversized kind hLen hCounts w hRows hCols
  dataSize hCounts hRows hCols := writeNamedMatrix_data_too_long kind hLen hCounts w hRows hCols
  written hCounts hRows hCols hDims hFits head tail hStack := by
    obtain ⟨w', hRun, hBytes, hPos, hStack'⟩ :=
      writeNamedMatrix_written kind hLen hCounts w hRows hCols hDims hFits hStack
    exact ⟨w', hRun, hBytes, hPos, hStack', by simp [Writer.depth, hStack', hStack]⟩

end

/-- A labelled-matrix write, whatever the sink. On a traced sink it runs as on the sink alone,
and its calls are those the first failing check leaves, or the whole block: the opening tag, the
two counts, each label list that is not empty, the data and the closing tag, up to the first call
the sink refuses, whose error it returns. On a stream writer in any state the first failing check
gives the error and the bytes and blocks it leaves. -/
theorem named_matrix_write_outcome (kind : Int32) (m : NamedMatrix)
    (hLen : m.data.entries.length < wordMax) :
    (∀ (σ : Type) [TagWrite σ] [Journal σ] (t : Traced σ), m.TracedOutcome kind t) ∧
      ∀ w : Writer, m.WriterOutcome kind w :=
  ⟨fun _ _ _ t => tracedOutcome kind hLen t, writerOutcome kind hLen⟩

/-- A two-by-one matrix with row labels: the hypothesis of `named_matrix_write_outcome` holds. -/
theorem named_matrix_write_outcome_column :
    let m : NamedMatrix := ⟨2, 1, ["a", "b"], [], ⟨2, 1, [⟨0⟩, ⟨0x3f800000⟩], rfl⟩⟩
    m.data.entries.length < wordMax ∧
      (∀ (σ : Type) [TagWrite σ] [Journal σ] (t : Traced σ), m.TracedOutcome 3562 t) ∧
        ∀ w : Writer, m.WriterOutcome 3562 w :=
  ⟨by decide, named_matrix_write_outcome _ _ (by decide)⟩

end NamedMatrix

end Fiff
