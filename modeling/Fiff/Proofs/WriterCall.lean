import Fiff.Proofs.Stream
import Fiff.Session

/-!
# What one call does to a stream writer

A writer refuses a call before it writes anything: closing a block when only the root is open,
closing a block of another kind than the innermost one, a matrix with a dimension beyond a
signed word, or a payload whose size a header cannot declare. It then leaves its bytes, its
offset and its blocks as they were. A call it accepts appends the frame of the call's tag and
files the tag's entry: an opening entry starts a new block, a closing entry ends the innermost
block, which goes to its parent, and any other entry goes to the innermost block.
-/

set_option autoImplicit false

namespace Fiff

namespace Writer

def innermost (w : Writer) : Option Int32 :=
  if w.stack.length ≤ 1 then none else w.stack.head?.map (·.block)

end Writer

namespace Call

def oversize (t : Tag) : Option TagError :=
  if t.data.encode.length ≤ maxPayload then none
  else some (.payloadTooLarge t.kind t.data.encode.length)

def refusal (innermost : Option Int32) : Call → Option TagError
  | endBlock kind => match innermost with
    | none => some (.noOpenBlock kind)
    | some b => if b = kind then none else some (.blockMismatch b kind)
  | writeFloatMatrix kind m =>
    if m.rows ≤ Writer.maxDimension ∧ m.cols ≤ Writer.maxDimension then
      oversize ⟨kind, .floatMatrix m⟩
    else some (.malformedPayload kind (.oversizedMatrix m.rows m.cols))
  | c => oversize c.tag

def fileInner (e : DirEntry) : List Node → List Node
  | [] => []
  | b :: rest => { b with directory := b.directory ++ [e] } :: rest

def file (c : Call) (e : DirEntry) (stack : List Node) : List Node :=
  match c with
  | startBlock kind => ⟨kind, [e], []⟩ :: stack
  | endBlock _ => match fileInner e stack with
    | b :: parent :: rest => { parent with children := parent.children ++ [b] } :: rest
    | stack => stack
  | _ => fileInner e stack

/-- `w'` is `w` after it accepted the call `c`, notes aside. -/
structure Accepted (c : Call) (w w' : Writer) : Prop where
  bytes : w'.bytes = w.bytes ++ c.tag.frame
  pos : w'.pos = w.pos + c.tag.frame.length
  stack : w'.stack = c.file (c.tag.entryAt w.pos) w.stack

end Call

/-- `w'` is `w` with at most its notes changed. -/
structure Writer.Unchanged (w w' : Writer) : Prop where
  bytes : w'.bytes = w.bytes
  pos : w'.pos = w.pos
  stack : w'.stack = w.stack

namespace Writer

theorem emit_tag (w : Writer) (t : Tag) :
    w.emit t.kind t.data.typeCode t.data.encode = match Call.oversize t with
      | none => .ok (t.entryAt w.pos,
          { w with bytes := w.bytes ++ t.frame, pos := w.pos + t.frame.length })
      | some e => .error e := by
  unfold emit Call.oversize
  by_cases hFits : t.data.encode.length ≤ maxPayload
  · simp only [if_pos hFits, Tag.entryAt, Tag.size, Tag.frame, List.append_assoc,
      List.length_append, Tag.length_header, Nat.add_assoc]
  · simp only [if_neg hFits]

@[simp] theorem record_bytes (w : Writer) (e : DirEntry) : (w.record e).bytes = w.bytes := by
  unfold record
  split <;> rfl

@[simp] theorem record_pos (w : Writer) (e : DirEntry) : (w.record e).pos = w.pos := by
  unfold record
  split <;> rfl

@[simp] theorem record_stack (w : Writer) (e : DirEntry) :
    (w.record e).stack = Call.fileInner e w.stack := by
  unfold record
  split <;> rename_i h <;> simp [h, Call.fileInner]

theorem writeTag_tag (t : Tag) (w : Writer) :
    writeTag t.kind t.data.typeCode t.data.encode w = match Call.oversize t with
      | none => .ok ()
          ({ w with bytes := w.bytes ++ t.frame, pos := w.pos + t.frame.length }.record
            (t.entryAt w.pos))
      | some e => .error e w := by
  simp only [writeTag, emit_tag]
  cases Call.oversize t <;> rfl

end Writer

namespace Call

theorem oversize_int (kind value : Int32) : oversize ⟨kind, .int value⟩ = none := by
  simp [oversize, TagData.encode, maxPayload]

private theorem perform_run_of_writeTag (c : Call) (w : Writer)
    (hRun : c.perform.run w = Writer.writeTag c.tag.kind c.tag.data.typeCode c.tag.data.encode w)
    (hRefusal : c.refusal w.innermost = oversize c.tag)
    (hFile : ∀ e, c.file e w.stack = fileInner e w.stack) :
    match c.perform.run w with
    | .ok _ w' => c.refusal w.innermost = none ∧ Accepted c w w'
    | .error e w' => c.refusal w.innermost = some e ∧ w.Unchanged w' := by
  rw [hRun, Writer.writeTag_tag, hRefusal]
  cases oversize c.tag with
  | none =>
    refine ⟨rfl, ?_, ?_, ?_⟩
    · simp
    · simp
    · simp [hFile]
  | some e => exact ⟨rfl, rfl, rfl, rfl⟩

theorem perform_run (c : Call) (w : Writer) :
    match c.perform.run w with
    | .ok _ w' => c.refusal w.innermost = none ∧ Accepted c w w'
    | .error e w' => c.refusal w.innermost = some e ∧ w.Unchanged w' := by
  cases c with
  | startBlock kind =>
    have hFits : oversize (startBlock kind).tag = none := oversize_int _ _
    simp only [perform, EStateM.run, TagWrite.startBlock, Writer.startBlock]
    erw [Writer.emit_tag _ (startBlock kind).tag, hFits]
    exact ⟨hFits, rfl, rfl, rfl⟩
  | endBlock kind =>
    simp only [perform, EStateM.run, TagWrite.endBlock, Writer.endBlock]
    rcases w with ⟨bytes, pos, _ | ⟨b, _ | ⟨parent, rest⟩⟩, notes⟩
    · exact ⟨rfl, rfl, rfl, rfl⟩
    · exact ⟨rfl, rfl, rfl, rfl⟩
    · by_cases hb : b.block = kind
      · have hFits : oversize (endBlock kind).tag = none := oversize_int _ _
        have hRefusal : refusal (some b.block) (endBlock kind) = none := by simp [refusal, hb]
        simp only [List.length_cons, hb, ne_eq, not_true_eq_false, if_false, Writer.closeInnermost,
          EStateM.run]
        erw [Writer.writeTag_tag (endBlock kind).tag, hFits]
        exact ⟨hRefusal, rfl, rfl, rfl⟩
      · have hRefusal : refusal (some b.block) (endBlock kind) = some (.blockMismatch b.block kind) := by
          simp [refusal, hb]
        simp only [List.length_cons, hb, ne_eq, not_false_eq_true, if_true]
        exact ⟨hRefusal, rfl, rfl, rfl⟩
  | writeInt kind value => exact perform_run_of_writeTag (writeInt kind value) w rfl rfl fun _ => rfl
  | writeString kind value =>
    exact perform_run_of_writeTag (writeString kind value) w rfl rfl fun _ => rfl
  | writeNameList kind names =>
    exact perform_run_of_writeTag (writeNameList kind names) w rfl rfl fun _ => rfl
  | writeFloatMatrix kind m =>
    by_cases hDims : m.rows ≤ Writer.maxDimension ∧ m.cols ≤ Writer.maxDimension
    · refine perform_run_of_writeTag (writeFloatMatrix kind m) w ?_
        (by simp only [refusal, if_pos hDims]; rfl) fun _ => rfl
      show (if _ then _ else _) = _
      rw [if_pos hDims]
      rfl
    · have hRefusal : refusal w.innermost (writeFloatMatrix kind m) =
          some (.malformedPayload kind (.oversizedMatrix m.rows m.cols)) := by
        simp only [refusal, if_neg hDims]
      simp only [perform, EStateM.run, TagWrite.writeFloatMatrix, Writer.writeFloatMatrix,
        if_neg hDims]
      exact ⟨hRefusal, rfl, rfl, rfl⟩

theorem fits_of_oversize {t : Tag} (h : oversize t = none)
    (hMatrix : ∀ m, t.data = .floatMatrix m →
      m.rows ≤ Writer.maxDimension ∧ m.cols ≤ Writer.maxDimension) : t.Fits := by
  refine ⟨?_, hMatrix⟩
  by_contra hBig
  simp [oversize, hBig] at h

theorem fits_int (kind value : Int32) : (⟨kind, .int value⟩ : Tag).Fits :=
  fits_of_oversize (oversize_int kind value) (fun _ h => by cases h)

theorem fits_of_refusal {c : Call} {innermost : Option Int32} (h : c.refusal innermost = none) :
    c.tag.Fits := by
  cases c with
  | startBlock kind => exact fits_int _ _
  | endBlock kind => exact fits_int _ _
  | writeInt kind value => exact fits_int _ _
  | writeString kind value => exact fits_of_oversize h (fun _ h => by cases h)
  | writeNameList kind names => exact fits_of_oversize h (fun _ h => by cases h)
  | writeFloatMatrix kind m =>
    by_cases hDims : m.rows ≤ Writer.maxDimension ∧ m.cols ≤ Writer.maxDimension
    · simp only [refusal, if_pos hDims] at h
      exact fits_of_oversize h (fun _ h => by cases h; exact hDims)
    · simp [refusal, hDims] at h

theorem perform_ok_iff {c : Call} {w : Writer} :
    (∃ w', c.perform.run w = .ok () w') ↔ c.refusal w.innermost = none := by
  have h := perform_run c w
  constructor
  · rintro ⟨w', hRun⟩
    rw [hRun] at h
    exact h.1
  · intro hNone
    cases hRun : c.perform.run w with
    | ok _ w' => exact ⟨w', rfl⟩
    | error e w' =>
      rw [hRun] at h
      rw [hNone] at h
      cases h.1

theorem perform_error_of_refusal {c : Call} {w : Writer} {e : TagError}
    (hSome : c.refusal w.innermost = some e) :
    ∃ w', c.perform.run w = .error e w' ∧ w.Unchanged w' := by
  have h := perform_run c w
  cases hRun : c.perform.run w with
  | ok _ w' =>
    rw [hRun, hSome] at h
    cases h.1
  | error e' w' =>
    rw [hRun, hSome] at h
    obtain ⟨hEq, hUnchanged⟩ := h
    cases hEq
    exact ⟨w', rfl, hUnchanged⟩

theorem unchanged_of_perform_error {c : Call} {w w' : Writer} {e : TagError}
    (hRun : c.perform.run w = .error e w') : w.Unchanged w' := by
  have h := perform_run c w
  rw [hRun] at h
  exact h.2

theorem refusal_endBlock_eq_none {innermost : Option Int32} {kind : Int32} :
    (endBlock kind).refusal innermost = none ↔ innermost = some kind := by
  cases innermost with
  | none => simp [refusal]
  | some b => by_cases hb : b = kind <;> simp [refusal, hb]

end Call

end Fiff
