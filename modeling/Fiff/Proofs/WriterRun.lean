import Fiff.Proofs.WriterCall
import Fiff.Proofs.Nesting
import Fiff.Proofs.Script

/-!
# The stream writer along a session

Whatever a session does, the writer holds what the calls that succeeded wrote (`Writer.Holds`):
their frames in order, with its offset at their end; its stack holds the blocks those calls left
open, innermost first, over the root, each with its kind and the entries filed in it; and each
block below the stack is closed and holds the entries filed in it. A writer with nothing
written holds the empty run, a call it accepts extends the run, and a call it refuses, or a
note, changes none of it.

On a traced writer the run is the list of calls that succeeded, so every session on a new
writer ends in a writer that holds that list. The main statement, `writer_run_invariant`, reads
off what that gives about the offset, the stack, closing blocks and refused calls.
-/

set_option autoImplicit false

namespace Fiff

/-- A node and the nodes below it. -/
inductive Node.Reaches : Node → Node → Prop
  | refl (n : Node) : Reaches n n
  | child {n c N : Node} : c ∈ n.children → Reaches c N → Reaches n N

theorem Node.reaches_cases {n N : Node} (h : n.Reaches N) :
    N = n ∨ ∃ c ∈ n.children, c.Reaches N := by
  cases h with
  | refl => exact .inl rfl
  | child hc hN => exact .inr ⟨_, hc, hN⟩

open Call

namespace Writer

/-- What a writer holds after the calls `cs`, all of which it accepted. -/
structure Holds (cs : List Call) (w : Writer) : Prop where
  bytes : w.bytes = Tag.stream (cs.map Call.tag)
  pos : w.pos = w.bytes.length
  stack : w.stack.map (fun n => (n.block, n.directory)) =
    (frames cs).map (fun f => (f.2, filedIn cs f.1))
  closed : ∀ n ∈ w.stack, ∀ c ∈ n.children, ∀ N, c.Reaches N → ∃ b, ClosedBlock cs b N
  fits : ∀ c ∈ cs, c.tag.Fits

theorem holds_new : Holds [] Writer.new where
  fits := by simp
  bytes := rfl
  pos := rfl
  stack := rfl
  closed := by simp [Writer.new, Node.empty]

variable {cs : List Call} {w : Writer}

theorem Holds.of_unchanged {w' : Writer} (hw : Holds cs w) (h : w.Unchanged w') : Holds cs w' where
  bytes := h.bytes ▸ hw.bytes
  pos := h.bytes ▸ h.pos ▸ hw.pos
  stack := h.stack ▸ hw.stack
  closed := h.stack ▸ hw.closed
  fits := hw.fits

theorem Holds.note (hw : Holds cs w) (n : Note) : Holds cs (Journal.note w n) :=
  hw.of_unchanged ⟨rfl, rfl, rfl⟩

theorem Holds.length_stack (hw : Holds cs w) : w.stack.length = (openBlocks cs).length + 1 := by
  simpa [frames] using congrArg List.length hw.stack

theorem Holds.blocks (hw : Holds cs w) :
    w.stack.map Node.block = (openBlocks cs).map Prod.snd ++ [Block.root] := by
  have h := congrArg (List.map Prod.fst) hw.stack
  simp only [List.map_map] at h
  simpa [frames, Function.comp_def] using h

theorem Holds.innermost_eq (hw : Holds cs w) : w.innermost = (openBlocks cs).head?.map Prod.snd := by
  have hBlocks := hw.blocks
  unfold Writer.innermost
  rw [hw.length_stack]
  cases hOpen : openBlocks cs with
  | nil => simp
  | cons p ps =>
    rw [hOpen] at hBlocks
    have hLength : 0 < w.stack.length := by simp [hw.length_stack]
    obtain ⟨n, rest, hStack⟩ := List.exists_cons_of_length_pos hLength
    rw [hStack, List.map_cons, List.map_cons, List.cons_append, List.cons.injEq] at hBlocks
    simp [hStack, hBlocks.1]

theorem Holds.of_finish (hw : Holds cs w) {bytes : List UInt8} {root : Node}
    (hFinish : w.finish = .ok (bytes, root)) :
    openBlocks cs = [] ∧ w.stack = [root] ∧ bytes = w.bytes := by
  have hDepth : w.depth = 0 := by
    by_contra hOpen
    simp [Writer.finish, Nat.pos_of_ne_zero hOpen] at hFinish
  have hLength := hw.length_stack
  have hOpen : openBlocks cs = [] := by
    simp only [Writer.depth] at hDepth
    exact List.eq_nil_of_length_eq_zero (by omega)
  rw [hOpen] at hLength
  obtain ⟨top, hTop⟩ : ∃ top, w.stack = [top] := by
    match hs : w.stack, hLength with
    | [top], _ => exact ⟨top, rfl⟩
  simp only [Writer.finish, hDepth, hTop, gt_iff_lt, Nat.lt_irrefl, if_false, List.head?_cons,
    Option.getD_some, Except.ok.injEq, Prod.mk.injEq] at hFinish
  obtain ⟨rfl, rfl⟩ := hFinish
  exact ⟨hOpen, hTop, rfl⟩

theorem Holds.finish_of_closed (hw : Holds cs w) (hNone : openBlocks cs = []) :
    ∃ root, w.stack = [root] ∧ root.block = Block.root ∧ w.finish = .ok (w.bytes, root) := by
  have hLength := hw.length_stack
  have hBlocks := hw.blocks
  rw [hNone] at hLength hBlocks
  match hStack : w.stack, hLength with
  | [root], _ =>
    rw [hStack] at hBlocks
    simp only [List.map_cons, List.map_nil, List.nil_append, List.cons.injEq] at hBlocks
    refine ⟨root, rfl, hBlocks.1, ?_⟩
    simp [Writer.finish, Writer.depth, hStack]

/-! ## One accepted call -/

theorem map_filedIn_append {fs : List (Option Nat × Int32)} {c : Call}
    (h : ∀ f ∈ fs, f.1 ≠ owner cs c) :
    fs.map (fun f => (f.2, filedIn (cs ++ [c]) f.1)) = fs.map (fun f => (f.2, filedIn cs f.1)) :=
  List.map_congr_left fun f hf => by rw [filedIn_append_of_ne (Ne.symm (h f hf))]

theorem closed_append {stack : List Node}
    (h : ∀ n ∈ stack, ∀ c ∈ n.children, ∀ N, c.Reaches N → ∃ b, ClosedBlock cs b N) (c : Call) :
    ∀ n ∈ stack, ∀ d ∈ n.children, ∀ N, d.Reaches N → ∃ b, ClosedBlock (cs ++ [c]) b N := by
  intro n hn d hd N hN
  obtain ⟨b, hb⟩ := h n hn d hd N hN
  exact ⟨b, hb.append c⟩

private theorem accept_plain {c : Call} (hc : c.Plain) {w' : Writer} (hw : Holds cs w)
    (hStack : w'.stack = fileInner (entryAfter cs c) w.stack) :
    w'.stack.map (fun n => (n.block, n.directory)) =
        (frames (cs ++ [c])).map (fun f => (f.2, filedIn (cs ++ [c]) f.1)) ∧
      ∀ n ∈ w'.stack, ∀ d ∈ n.children, ∀ N, d.Reaches N → ∃ b, ClosedBlock (cs ++ [c]) b N := by
  obtain ⟨f, fs, hFrames⟩ := List.exists_cons_of_ne_nil (by simp [frames] : frames cs ≠ [])
  have hOwner : owner cs c = f.1 := by
    rw [owner_eq_head_frames fun kind => (hc kind).1, hFrames]
    rfl
  have hOthers : ∀ g ∈ fs, g.1 ≠ owner cs c := by
    have hNodup := frames_nodup cs
    rw [hFrames, List.map_cons, List.nodup_cons] at hNodup
    exact fun g hg hEq => hNodup.1 (hOwner ▸ hEq ▸ List.mem_map_of_mem hg)
  have hOld := hw.stack
  rw [hFrames] at hOld
  obtain ⟨n, rest, hCons⟩ := List.exists_cons_of_length_pos (by simp [hw.length_stack] :
    0 < w.stack.length)
  rw [hCons, List.map_cons, List.map_cons, List.cons.injEq, Prod.mk.injEq] at hOld
  rw [hStack, hCons, fileInner, frames_append_of_plain hc, hFrames]
  refine ⟨?_, ?_⟩
  · have hHead : filedIn (cs ++ [c]) f.1 = n.directory ++ [entryAfter cs c] := by
      rw [← hOwner, filedIn_append_owner, hOwner, hOld.1.2]
    rw [List.map_cons, List.map_cons, map_filedIn_append hOthers, ← hOld.2, hHead, ← hOld.1.1]
  · have hClosed := closed_append hw.closed c
    rw [hCons] at hClosed
    intro m hm
    rcases List.mem_cons.mp hm with rfl | hm
    · exact hClosed n List.mem_cons_self
    · exact hClosed m (List.mem_cons_of_mem n hm)

private theorem accept_startBlock (kind : Int32) {w' : Writer} (hw : Holds cs w)
    (hStack : w'.stack = ⟨kind, [entryAfter cs (Call.startBlock kind)], []⟩ :: w.stack) :
    w'.stack.map (fun n => (n.block, n.directory)) =
        (frames (cs ++ [Call.startBlock kind])).map
          (fun f => (f.2, filedIn (cs ++ [Call.startBlock kind]) f.1)) ∧
      ∀ n ∈ w'.stack, ∀ d ∈ n.children, ∀ N, d.Reaches N →
        ∃ b, ClosedBlock (cs ++ [Call.startBlock kind]) b N := by
  have hOwner : owner cs (Call.startBlock kind) = some cs.length := rfl
  have hOthers : ∀ f ∈ frames cs, f.1 ≠ owner cs (Call.startBlock kind) := fun f hf hEq =>
    Nat.lt_irrefl _ (lt_length_of_mem_frames hf (hEq.trans hOwner))
  have hNew : filedIn (cs ++ [Call.startBlock kind]) (some cs.length) =
      [entryAfter cs (Call.startBlock kind)] := by
    rw [← hOwner, filedIn_append_owner, hOwner, filedIn_of_length_le le_rfl, List.nil_append]
  rw [hStack, frames_append_startBlock]
  refine ⟨?_, ?_⟩
  · rw [List.map_cons, List.map_cons, map_filedIn_append hOthers, ← hw.stack, hNew]
  · intro n hn
    rcases List.mem_cons.mp hn with rfl | hn
    · intro d hd
      cases hd
    · exact closed_append hw.closed _ n hn

theorem closedBlock_endBlock {i : Nat} {k : Int32} {ps : List (Nat × Int32)}
    (hOpen : openBlocks cs = (i, k) :: ps) {n : Node} (hBlock : n.block = k)
    (hDir : n.directory = filedIn cs (some i)) :
    ClosedBlock (cs ++ [Call.endBlock k]) i
      { n with directory := n.directory ++ [entryAfter cs (Call.endBlock k)] } := by
  have hOwner : owner cs (Call.endBlock k) = some i := by simp [owner, hOpen]
  have hCall : cs[i]? = some (Call.startBlock k) :=
    (openBlocks_spec cs).1 (i, k) (by rw [hOpen]; exact List.mem_cons_self)
  refine ⟨?_, ?_, ?_⟩
  · rw [List.getElem?_append_left (List.getElem?_eq_some_iff.mp hCall).1, hCall, hBlock]
  · have hOrder := (openBlocks_spec cs).2
    rw [hOpen, List.pairwise_cons] at hOrder
    simp only [openBlocks_append_singleton, nest, hOpen, List.tail_cons, List.mem_map, not_exists,
      not_and]
    exact fun q hq hEq => Nat.lt_irrefl i (hEq ▸ hOrder.1 q hq)
  · rw [← hOwner, filedIn_append_owner, hOwner, hDir]

private theorem accept_endBlock (kind : Int32) {w' : Writer} (hw : Holds cs w)
    (hInner : w.innermost = some kind)
    (hStack : w'.stack = (Call.endBlock kind).file (entryAfter cs (Call.endBlock kind)) w.stack) :
    w'.stack.map (fun n => (n.block, n.directory)) =
        (frames (cs ++ [Call.endBlock kind])).map
          (fun f => (f.2, filedIn (cs ++ [Call.endBlock kind]) f.1)) ∧
      ∀ n ∈ w'.stack, ∀ d ∈ n.children, ∀ N, d.Reaches N →
        ∃ b, ClosedBlock (cs ++ [Call.endBlock kind]) b N := by
  rw [hw.innermost_eq, Option.map_eq_some_iff] at hInner
  obtain ⟨⟨i, k⟩, hHead, hKind⟩ := hInner
  dsimp only at hKind
  subst hKind
  obtain ⟨ps, hOpen⟩ : ∃ ps, openBlocks cs = (i, k) :: ps := by
    cases h : openBlocks cs with
    | nil => simp [h] at hHead
    | cons p ps => simp only [h, List.head?_cons, Option.some.injEq] at hHead; exact ⟨ps, hHead ▸ rfl⟩
  have hOwner : owner cs (Call.endBlock k) = some i := by simp [owner, hOpen]
  have hFrames : frames cs = (some i, k) :: (frames cs).tail := by simp [frames, hOpen]
  have hOthers : ∀ f ∈ (frames cs).tail, f.1 ≠ owner cs (Call.endBlock k) := by
    have hNodup := frames_nodup cs
    rw [hFrames, List.map_cons, List.nodup_cons] at hNodup
    intro f hf hEq
    have hIn : f.1 ∈ (frames cs).tail.map Prod.fst := List.mem_map_of_mem hf
    rw [hEq, hOwner] at hIn
    exact hNodup.1 hIn
  have hOld := hw.stack
  obtain ⟨n, parent, rest, hCons⟩ : ∃ n parent rest, w.stack = n :: parent :: rest := by
    have hLength := hw.length_stack
    rw [hOpen] at hLength
    rcases hs : w.stack with _ | ⟨n, _ | ⟨parent, rest⟩⟩
    · simp [hs] at hLength
    · simp [hs] at hLength
    · exact ⟨n, parent, rest, rfl⟩
  rw [hFrames, hCons] at hOld
  simp only [List.map_cons, List.cons.injEq, Prod.mk.injEq] at hOld
  rw [hStack, hCons, frames_append_endBlock, if_neg (by simp [hOpen])]
  refine ⟨?_, ?_⟩
  · rw [map_filedIn_append hOthers, ← hOld.2]
    rfl
  · have hClosed := closed_append hw.closed (Call.endBlock k)
    rw [hCons] at hClosed
    intro m hm
    rcases List.mem_cons.mp hm with rfl | hm
    · intro d hd N hN
      rcases List.mem_append.mp hd with hd | hd
      · exact hClosed parent (by simp) d hd N hN
      · rw [List.mem_singleton] at hd
        subst hd
        rcases Node.reaches_cases hN with rfl | ⟨d, hd, hN⟩
        · exact ⟨i, closedBlock_endBlock hOpen hOld.1.1 hOld.1.2⟩
        · exact hClosed n List.mem_cons_self d hd N hN
    · exact hClosed m (by simp [hm])

theorem Holds.accept {c : Call} {w' : Writer} (hw : Holds cs w)
    (hOk : c.refusal w.innermost = none) (hAcc : c.Accepted w w') : Holds (cs ++ [c]) w' := by
  have hEntry : c.tag.entryAt w.pos = entryAfter cs c := by rw [entryAfter, hw.pos, hw.bytes]
  have hFile := hAcc.stack
  rw [hEntry] at hFile
  have hBytes : w'.bytes = Tag.stream ((cs ++ [c]).map Call.tag) := by
    rw [hAcc.bytes, hw.bytes, List.map_append, Tag.stream_append]
    simp [Tag.stream_cons]
  have hStack : w'.stack.map (fun n => (n.block, n.directory)) =
        (frames (cs ++ [c])).map (fun f => (f.2, filedIn (cs ++ [c]) f.1)) ∧
      ∀ n ∈ w'.stack, ∀ d ∈ n.children, ∀ N, d.Reaches N → ∃ b, ClosedBlock (cs ++ [c]) b N := by
    cases c with
    | startBlock kind => exact accept_startBlock kind hw hFile
    | endBlock kind =>
      have hInner : w.innermost = some kind := by
        cases h : w.innermost with
        | none => simp [refusal, h] at hOk
        | some b => simp only [refusal, h] at hOk; split at hOk <;> simp_all
      exact accept_endBlock kind hw hInner hFile
    | writeInt kind value => exact accept_plain (fun _ => by simp) hw hFile
    | writeString kind value => exact accept_plain (fun _ => by simp) hw hFile
    | writeNameList kind names => exact accept_plain (fun _ => by simp) hw hFile
    | writeFloatMatrix kind m => exact accept_plain (fun _ => by simp) hw hFile
  have hFits : ∀ d ∈ cs ++ [c], d.tag.Fits := by
    intro d hd
    rcases List.mem_append.mp hd with hd | hd
    · exact hw.fits d hd
    · rw [List.mem_singleton.mp hd]
      exact fits_of_refusal hOk
  exact ⟨hBytes, by rw [hAcc.pos, hw.pos, hBytes, hw.bytes]; simp [Tag.stream_append,
    Tag.stream_cons], hStack.1, hStack.2, hFits⟩

end Writer

namespace Traced

variable {σ : Type}

theorem written_ok (calls : List (Call × Except TagError Unit)) (s : σ) (c : Call) :
    (⟨s, calls ++ [(c, .ok ())]⟩ : Traced σ).written = (⟨s, calls⟩ : Traced σ).written ++ [c] := by
  simp [written, List.filterMap_append]

theorem written_error (calls : List (Call × Except TagError Unit)) (s : σ) (c : Call)
    (e : TagError) :
    (⟨s, calls ++ [(c, .error e)]⟩ : Traced σ).written = (⟨s, calls⟩ : Traced σ).written := by
  simp [written, List.filterMap_append]

theorem holds_perform (c : Call) {t : Traced Writer} (ht : t.inner.Holds t.written) :
    (resultState (c.perform.run t)).inner.Holds (resultState (c.perform.run t)).written := by
  have hCall := Call.perform_run c t.inner
  simp only [EStateM.run] at hCall
  simp only [perform_call, perform, EStateM.run]
  cases h : c.perform t.inner with
  | ok _ s =>
    rw [h] at hCall
    show s.Holds (⟨s, t.calls ++ [(c, .ok ())]⟩ : Traced Writer).written
    rw [written_ok]
    exact ht.accept hCall.1 hCall.2
  | error e s =>
    rw [h] at hCall
    show s.Holds (⟨s, t.calls ++ [(c, .error e)]⟩ : Traced Writer).written
    rw [written_error]
    exact ht.of_unchanged hCall.2

end Traced

theorem holds_runAll (steps : List Step) :
    (Step.runAll steps (Traced.new Writer.new)).inner.Holds
      (Step.runAll steps (Traced.new Writer.new)).written :=
  Step.runAll_preserves (fun t : Traced Writer => t.inner.Holds t.written)
    (fun c _ ht => Traced.holds_perform c ht) (fun _ n ht => ht.note n) steps _ Writer.holds_new

/-- Along every session on a new writer: the offset is the number of bytes written; the stack
holds the blocks opened by calls that succeeded and not closed by one since (those a labelled
matrix opens included), innermost first, over the root, so the depth is their number and with
none open the writer finishes with the root; closing a block succeeds exactly when the innermost
open block has its kind, and otherwise fails saying why; and a refused call changes none of the
bytes, the offset and the blocks. -/
theorem writer_run_invariant (steps : List Step) :
    let w := Step.runAll steps Writer.new
    let opened := (openBlocks (Step.runAll steps (Traced.new Writer.new)).written).map Prod.snd
    w.position = w.bytes.length ∧
    w.stack.map Node.block = opened ++ [Block.root] ∧
    w.depth = opened.length ∧
    (opened = [] →
      ∃ root, w.stack = [root] ∧ root.block = Block.root ∧ w.finish = .ok (w.bytes, root)) ∧
    (∀ kind, (∃ w', (Writer.endBlock kind).run w = .ok () w') ↔ opened.head? = some kind) ∧
    (∀ kind, opened = [] →
      ∃ w', (Writer.endBlock kind).run w = .error (.noOpenBlock kind) w' ∧ w.Unchanged w') ∧
    (∀ kind b, opened.head? = some b → b ≠ kind →
      ∃ w', (Writer.endBlock kind).run w = .error (.blockMismatch b kind) w' ∧ w.Unchanged w') ∧
    ∀ (c : Call) e w', c.perform.run w = .error e w' → w.Unchanged w' := by
  intro w opened
  have hw : w.Holds (Step.runAll steps (Traced.new Writer.new)).written := by
    have h := holds_runAll steps
    rwa [Step.inner_runAll] at h
  have hInner : w.innermost = opened.head? := by rw [hw.innermost_eq, List.head?_map]
  have hEnd : ∀ kind, (Call.endBlock kind).perform.run w = (Writer.endBlock kind).run w :=
    fun _ => rfl
  refine ⟨hw.pos, hw.blocks, ?_, ?_, ?_, ?_, ?_, fun c e w' h => Call.unchanged_of_perform_error h⟩
  · simp [Writer.depth, hw.length_stack, opened]
  · intro hNone
    exact hw.finish_of_closed (List.map_eq_nil_iff.mp hNone)
  · intro kind
    rw [← hEnd, Call.perform_ok_iff, Call.refusal_endBlock_eq_none, hInner]
  · intro kind hNone
    rw [← hEnd]
    exact Call.perform_error_of_refusal (by simp [Call.refusal, hInner, hNone])
  · intro kind b hHead hb
    rw [← hEnd]
    exact Call.perform_error_of_refusal (by simp [Call.refusal, hInner, hHead, hb])

end Fiff
