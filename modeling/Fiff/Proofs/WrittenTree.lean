import Fiff.Proofs.WriterRun

/-!
# The tree a finished session returns reads back

When a session on a new writer finishes, the bytes are the frames of the tags of the calls that
succeeded, in order, and the tree is the filing of those calls. The root holds the entries
filed in the root. Every block below it was opened by one of the calls and holds the entries
filed in it: its opening entry, the entries of the tags written while it was the innermost open
block, and its closing entry, in stream order. Every entry of the tree is the entry of one of
the calls, and a stream reader over the bytes reads back from it the tag that call wrote.
-/

set_option autoImplicit false

namespace Fiff

open Call

theorem Node.reaches_of_descend? {n N : Node} {path : List Nat} (h : n.descend? path = some N) :
    n.Reaches N := by
  induction path generalizing n with
  | nil =>
    cases h
    exact .refl _
  | cons i path ih =>
    unfold Node.descend? at h
    cases hChild : n.children[i]? with
    | none => simp [hChild] at h
    | some c =>
      rw [hChild] at h
      exact .child (List.mem_of_getElem? hChild) (ih h)

theorem readTag_entryAfter {before after : List Call} {c : Call} (hFits : c.tag.Fits) (r : Reader)
    (hBytes : r.bytes = Tag.stream ((before ++ c :: after).map Call.tag)) :
    ∃ r', (Reader.readTag (entryAfter before c)).run r = .ok c.tag r' :=
  (Reader.readTag_frame hFits _ _ r (by
    rw [hBytes, List.map_append, List.map_cons, Tag.stream_append, Tag.stream_cons,
      List.append_assoc])).imp fun _ h => h.1

/-- The bytes and the tree written by the calls `cs`, all of which succeeded: the frames of
their tags; a root holding the entries filed in the root; below it, blocks opened by the calls,
each holding the entries filed in it; and entries that read back their call's tag. -/
structure ReadsBack (cs : List Call) (bytes : List UInt8) (root : Node) : Prop where
  frames : bytes = Tag.stream (cs.map Call.tag)
  root_block : root.block = Block.root
  root_directory : root.directory = filedIn cs none
  blocks : ∀ i path N, root.descend? (i :: path) = some N →
    ∃ b, cs[b]? = some (.startBlock N.block) ∧ N.directory = filedIn cs (some b)
  entries : ∀ path N, root.descend? path = some N → ∀ e ∈ N.directory,
    ∃ before c after, cs = before ++ c :: after ∧ e = entryAfter before c ∧
      ∃ r, (Reader.readTag e).run (Reader.new bytes) = .ok c.tag r

/-- When a session on a new writer finishes, its bytes and tree are those the calls that
succeeded wrote, and every entry of the tree reads back the tag of the call that wrote it. -/
theorem written_tree_reads_back (steps : List Step) {bytes : List UInt8} {root : Node}
    (hFinish : (Step.runAll steps Writer.new).finish = .ok (bytes, root)) :
    ReadsBack (Step.runAll steps (Traced.new Writer.new)).written bytes root := by
  set cs := (Step.runAll steps (Traced.new Writer.new)).written
  have hw : (Step.runAll steps Writer.new).Holds cs := by
    have h := holds_runAll steps
    rwa [Step.inner_runAll] at h
  obtain ⟨hOpen, hTop, rfl⟩ := hw.of_finish hFinish
  have hStack := hw.stack
  simp only [hTop, frames, hOpen, List.map_nil, List.nil_append, List.map_cons,
    List.cons.injEq, Prod.mk.injEq, and_true] at hStack
  have hBelow : ∀ i path N, root.descend? (i :: path) = some N → ∃ b, ClosedBlock cs b N := by
    intro i path N hN
    unfold Node.descend? at hN
    cases hChild : root.children[i]? with
    | none => simp [hChild] at hN
    | some c =>
      rw [hChild] at hN
      exact hw.closed root (by simp [hTop]) c (List.mem_of_getElem? hChild) N
        (Node.reaches_of_descend? hN)
  refine ⟨hw.bytes, hStack.1, hStack.2, fun i path N hN => ?_, fun path N hN e he => ?_⟩
  · obtain ⟨b, hCall, -, hFiled⟩ := hBelow i path N hN
    exact ⟨b, hCall, hFiled⟩
  · obtain ⟨o, hFiled⟩ : ∃ o, N.directory = filedIn cs o := by
      cases path with
      | nil =>
        cases hN
        exact ⟨none, hStack.2⟩
      | cons i path =>
        obtain ⟨b, -, -, hFiled⟩ := hBelow i path N hN
        exact ⟨some b, hFiled⟩
    rw [hFiled] at he
    obtain ⟨before, c, after, hSplit, -, rfl⟩ := exists_of_mem_filedIn he
    have hFits : c.tag.Fits := hw.fits c (by rw [hSplit]; simp)
    exact ⟨before, c, after, hSplit, rfl,
      readTag_entryAfter hFits (Reader.new _) (by rw [← hSplit]; exact hw.bytes)⟩

/-- A block holding one tag, written and finished: the hypothesis of
`written_tree_reads_back` is met. -/
theorem written_tree_reads_back_block :
    let steps := [Step.call (.startBlock 100), .call (.writeInt 200 7), .call (.endBlock 100)]
    let w := Step.runAll steps Writer.new
    w.finish = .ok (w.bytes, w.stack.head?.getD default) ∧
      ReadsBack (Step.runAll steps (Traced.new Writer.new)).written w.bytes
        (w.stack.head?.getD default) := by
  intro steps w
  have hFinish : w.finish = .ok (w.bytes, w.stack.head?.getD default) := by
    rw [Writer.finish, if_neg (by decide)]
  exact ⟨hFinish, written_tree_reads_back steps hFinish⟩

end Fiff
