import Fiff.Proofs.WriterRun

/-!
# The written tree against a directory scan of the bytes

A directory scan reads a stream frame by frame from its start. Each header gives an entry at the
frame's offset. An opening tag starts a child of the current block, of the kind its payload
gives, holding the opening entry; any other entry goes to the current block, and a closing tag
then closes that block into its parent. The scan moves on by the header and the payload size the
header declares, to the end of the bytes.

The writer never scans: it files each tag as it writes it (`Call.file`). The two agree on the
tag of a call that opens or closes a block, which carries the block's kind under an opening or
closing kind, and on any other tag whose kind is neither of those. So a session on a new writer
that finishes returns the tree the scan builds from its bytes, provided that no call that
succeeded wrote an ordinary tag of an opening or closing kind (`scan_eq_written_tree`). One such
tag is enough to make the two differ (`plain_block_kinds_scanned_apart`).
-/

set_option autoImplicit false

namespace Fiff

open Call

/-- How a directory scan files the entry `e` of a frame with payload `payload`: an opening tag
starts a block of the kind its payload gives, holding its entry; any other entry goes to the
current block, and a closing tag then closes that block into its parent. -/
def scanEntry (e : DirEntry) (payload : List UInt8) (stack : List Node) : List Node :=
  if e.kind = Kind.blockStart then ⟨Word.toInt32 (payload.take 4), [e], []⟩ :: stack
  else if e.kind = Kind.blockEnd then
    match fileInner e stack with
    | b :: parent :: rest => { parent with children := parent.children ++ [b] } :: rest
    | stack => stack
  else fileInner e stack

/-- A directory scan of `bytes` from offset `pos`, with the blocks `stack` open, innermost
first: the blocks open at the end of the bytes, or nothing when a header runs past them. -/
def scanFrom (bytes : List UInt8) (pos : Nat) (stack : List Node) : Option (List Node) :=
  if pos < bytes.length then
    match Reader.header? bytes pos with
    | none => none
    | some (kind, ty, size) =>
      scanFrom bytes (pos + 16 + size.toInt.toNat)
        (scanEntry ⟨kind, ty, size, pos⟩ ((bytes.drop (pos + 16)).take size.toInt.toNat) stack)
  else some stack
termination_by bytes.length - pos

/-- The tree a directory scan builds from a whole stream: its root, once every block the scan
opened is closed again. -/
def scan (bytes : List UInt8) : Option Node :=
  match scanFrom bytes 0 [Node.empty Block.root] with
  | some [root] => some root
  | _ => none

def scanTags : Nat → List Tag → List Node → List Node
  | _, [], stack => stack
  | pos, t :: ts, stack =>
    scanTags (pos + t.frame.length) ts (scanEntry (t.entryAt pos) t.data.encode stack)

/-- The blocks open once the writer has filed the tags of the calls `cs`, their frames laid from
offset `pos`, into the blocks `stack`. -/
def fileFrom : Nat → List Call → List Node → List Node
  | _, [], stack => stack
  | pos, c :: cs, stack => fileFrom (pos + c.tag.frame.length) cs (c.file (c.tag.entryAt pos) stack)

/-- A call whose tag a scan files apart from the writer: an ordinary tag of an opening or
closing kind. -/
def Call.Misfiled (c : Call) : Prop :=
  c.Plain ∧ (c.tag.kind = Kind.blockStart ∨ c.tag.kind = Kind.blockEnd)

theorem fileFrom_append_singleton (pos : Nat) (cs : List Call) (c : Call) (stack : List Node) :
    fileFrom pos (cs ++ [c]) stack =
      c.file (c.tag.entryAt (pos + (Tag.stream (cs.map Call.tag)).length))
        (fileFrom pos cs stack) := by
  induction cs generalizing pos stack with
  | nil => simp [fileFrom]
  | cons d cs ih => simp [fileFrom, ih, Tag.stream_cons, Nat.add_assoc]

/-! ## The scan of written frames -/

theorem scanFrom_stream {ts : List Tag} (hFits : ∀ t ∈ ts, t.Fits) (pre : List UInt8)
    (stack : List Node) :
    scanFrom (pre ++ Tag.stream ts) pre.length stack = some (scanTags pre.length ts stack) := by
  induction ts generalizing pre stack with
  | nil =>
    rw [scanFrom, if_neg (by simp)]
    rfl
  | cons t ts ih =>
    have hFit : t.Fits := hFits t List.mem_cons_self
    have hBytes : pre ++ Tag.stream (t :: ts) = pre ++ t.frame ++ Tag.stream ts := by
      rw [Tag.stream_cons, List.append_assoc]
    have hNext : pre.length + 16 + t.size.toInt.toNat = (pre ++ t.frame).length := by
      rw [Tag.toInt_size hFit, Int.toNat_natCast, List.length_append, Tag.length_frame,
        Nat.add_assoc]
    have hInside : pre.length < (pre ++ t.frame ++ Tag.stream ts).length := by
      simp [Tag.length_frame]
    rw [hBytes, scanFrom, if_pos hInside, Reader.header?_frame]
    dsimp only
    rw [Reader.payload_frame hFit, hNext,
      ih (fun u hu => hFits u (List.mem_cons_of_mem t hu)), List.length_append]
    rfl

theorem scanEntry_call {c : Call} (hc : ¬ c.Misfiled) (pos : Nat) (stack : List Node) :
    scanEntry (c.tag.entryAt pos) c.tag.data.encode stack = c.file (c.tag.entryAt pos) stack := by
  have hKind : (c.tag.entryAt pos).kind = c.tag.kind := rfl
  by_cases hPlain : c.Plain
  · have hFile : c.file (c.tag.entryAt pos) stack = fileInner (c.tag.entryAt pos) stack := by
      cases c with
      | startBlock kind => exact absurd rfl (hPlain kind).1
      | endBlock kind => exact absurd rfl (hPlain kind).2
      | writeInt _ _ | writeString _ _ | writeNameList _ _ | writeFloatMatrix _ _ => rfl
    have hOther : c.tag.kind ≠ Kind.blockStart ∧ c.tag.kind ≠ Kind.blockEnd := by
      simpa [Call.Misfiled, hPlain, not_or] using hc
    rw [hFile, scanEntry, hKind, if_neg hOther.1, if_neg hOther.2]
  · simp only [Call.Plain, not_forall, not_and_or, not_not] at hPlain
    obtain ⟨kind, rfl | rfl⟩ := hPlain
    · have hStart : ((startBlock kind).tag.entryAt pos).kind = Kind.blockStart := rfl
      have hPayload : Word.toInt32 ((startBlock kind).tag.data.encode.take 4) = kind := by
        show Word.toInt32 ((Word.ofInt32 kind).take 4) = kind
        rw [List.take_of_length_le (by simp), Word.toInt32_ofInt32]
      rw [scanEntry, hStart, if_pos rfl, hPayload]
      rfl
    · have hEnd : ((endBlock kind).tag.entryAt pos).kind = Kind.blockEnd := rfl
      have hApart : Kind.blockEnd ≠ Kind.blockStart := by decide
      rw [scanEntry, hEnd, if_neg hApart, if_pos rfl]
      rfl

theorem scanTags_calls {cs : List Call} (hcs : ∀ c ∈ cs, ¬ c.Misfiled) (pos : Nat)
    (stack : List Node) : scanTags pos (cs.map Call.tag) stack = fileFrom pos cs stack := by
  induction cs generalizing pos stack with
  | nil => rfl
  | cons c cs ih =>
    rw [List.map_cons, scanTags, fileFrom, scanEntry_call (hcs c List.mem_cons_self),
      ih (fun d hd => hcs d (List.mem_cons_of_mem c hd))]

/-! ## The writer's stack is the filing of the calls that succeeded -/

namespace Traced

theorem filed_perform (c : Call) {t : Traced Writer} (ht : t.inner.Holds t.written)
    (hFiled : t.inner.stack = fileFrom 0 t.written [Node.empty Block.root]) :
    (resultState (c.perform.run t)).inner.stack =
      fileFrom 0 (resultState (c.perform.run t)).written [Node.empty Block.root] := by
  have hCall := Call.perform_run c t.inner
  simp only [EStateM.run] at hCall
  simp only [perform_call, perform, EStateM.run]
  cases h : c.perform t.inner with
  | ok _ s =>
    rw [h] at hCall
    show s.stack = fileFrom 0 (⟨s, t.calls ++ [(c, .ok ())]⟩ : Traced Writer).written _
    rw [written_ok]
    show s.stack = fileFrom 0 (t.written ++ [c]) _
    rw [fileFrom_append_singleton, hCall.2.stack, ← hFiled, ht.pos, ht.bytes, Nat.zero_add]
  | error e s =>
    rw [h] at hCall
    show s.stack = fileFrom 0 (⟨s, t.calls ++ [(c, .error e)]⟩ : Traced Writer).written _
    rw [written_error, hCall.2.stack]
    exact hFiled

end Traced

theorem filed_runAll (steps : List Step) :
    (Step.runAll steps (Traced.new Writer.new)).inner.stack =
      fileFrom 0 (Step.runAll steps (Traced.new Writer.new)).written [Node.empty Block.root] :=
  (Step.runAll_preserves
    (fun t : Traced Writer =>
      t.inner.Holds t.written ∧ t.inner.stack = fileFrom 0 t.written [Node.empty Block.root])
    (fun c _ ht => ⟨Traced.holds_perform c ht.1, Traced.filed_perform c ht.1 ht.2⟩)
    (fun _ n ht => ⟨ht.1.note n, ht.2⟩) steps (Traced.new Writer.new) ⟨Writer.holds_new, rfl⟩).2

/-- A session on a new writer that finishes, none of whose calls that succeeded wrote an ordinary
tag of an opening or closing kind, returns the tree that a directory scan of its bytes builds. -/
theorem scan_eq_written_tree (steps : List Step) {bytes : List UInt8} {root : Node}
    (hFinish : (Step.runAll steps Writer.new).finish = .ok (bytes, root))
    (hKinds : ∀ c ∈ (Step.runAll steps (Traced.new Writer.new)).written, ¬ c.Misfiled) :
    scan bytes = some root := by
  set cs := (Step.runAll steps (Traced.new Writer.new)).written
  have hw : (Step.runAll steps Writer.new).Holds cs := by
    have h := holds_runAll steps
    rwa [Step.inner_runAll] at h
  have hFiled : (Step.runAll steps Writer.new).stack = fileFrom 0 cs [Node.empty Block.root] := by
    have h := filed_runAll steps
    rwa [Step.inner_runAll] at h
  obtain ⟨-, hTop, rfl⟩ := hw.of_finish hFinish
  have hFits : ∀ t ∈ cs.map Call.tag, t.Fits := by
    intro t ht
    obtain ⟨c, hc, rfl⟩ := List.mem_map.mp ht
    exact hw.fits c hc
  have hScan := scanFrom_stream hFits [] [Node.empty Block.root]
  rw [List.nil_append, List.length_nil, scanTags_calls hKinds, ← hFiled, hTop] at hScan
  rw [scan, hw.bytes, hScan]

/-- A block holding one tag, written and finished: the hypotheses of `scan_eq_written_tree`
hold. -/
theorem scan_eq_written_tree_block :
    let steps := [Step.call (.startBlock 100), .call (.writeInt 200 7), .call (.endBlock 100)]
    let w := Step.runAll steps Writer.new
    w.finish = .ok (w.bytes, w.stack.head?.getD default) ∧
      (∀ c ∈ (Step.runAll steps (Traced.new Writer.new)).written, ¬ c.Misfiled) ∧
      scan w.bytes = some (w.stack.head?.getD default) := by
  intro steps w
  have hFinish : w.finish = .ok (w.bytes, w.stack.head?.getD default) := by
    rw [Writer.finish, if_neg (by decide)]
  have hWritten : (Step.runAll steps (Traced.new Writer.new)).written =
      [.startBlock 100, .writeInt 200 7, .endBlock 100] := rfl
  have hKinds : ∀ c ∈ (Step.runAll steps (Traced.new Writer.new)).written, ¬ c.Misfiled := by
    rw [hWritten]
    intro c hc hMisfiled
    simp only [List.mem_cons, List.not_mem_nil, or_false] at hc
    rcases hc with rfl | rfl | rfl
    · exact (hMisfiled.1 100).1 rfl
    · exact absurd hMisfiled.2 (by decide)
    · exact (hMisfiled.1 100).2 rfl
  exact ⟨hFinish, hKinds, scan_eq_written_tree steps hFinish hKinds⟩

/-- Ordinary tags of the opening and the closing kind, written at the top of a new writer: the
writer files both in the root, and the scan reads them as a block of the kind the first one
holds. -/
theorem plain_block_kinds_scanned_apart :
    let steps := [Step.call (.writeInt Kind.blockStart 5), .call (.writeInt Kind.blockEnd 5)]
    let w := Step.runAll steps Writer.new
    let entries := [(⟨Kind.blockStart, .int 5⟩ : Tag).entryAt 0,
      (⟨Kind.blockEnd, .int 5⟩ : Tag).entryAt 20]
    w.finish = .ok (w.bytes, ⟨Block.root, entries, []⟩) ∧
      scan w.bytes = some ⟨Block.root, [], [⟨5, entries, []⟩]⟩ := by
  intro steps w entries
  have hBytes : w.bytes = Tag.stream [⟨Kind.blockStart, .int 5⟩, ⟨Kind.blockEnd, .int 5⟩] := rfl
  have hFits : ∀ t ∈ [(⟨Kind.blockStart, .int 5⟩ : Tag), ⟨Kind.blockEnd, .int 5⟩], t.Fits := by
    intro t ht
    simp only [List.mem_cons, List.not_mem_nil, or_false] at ht
    rcases ht with rfl | rfl <;> exact Call.fits_int _ _
  have hScan := scanFrom_stream hFits [] [Node.empty Block.root]
  rw [List.nil_append, List.length_nil] at hScan
  refine ⟨rfl, ?_⟩
  rw [scan, hBytes, hScan]
  rfl

end Fiff
