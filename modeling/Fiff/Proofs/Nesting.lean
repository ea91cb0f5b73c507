import Fiff.Proofs.Stream
import Fiff.Session

/-!
# Blocks and filing, read off the calls that succeeded

Given the calls of a session that succeeded, in order, this module says which blocks are open
and where each tag belongs, without a writer. A block is named by the index of the call that
opened it. Opening a block pushes it and closing one pops the innermost. A tag goes into the
block it opens when it is an opening tag, and otherwise into the innermost open block at the
time it is written (the root when none is open), so a closing tag goes into the block it
closes. A call's entry gives its tag's kind, data type and payload size and the offset of its
frame, which follows the frames of the calls before it.
-/

set_option autoImplicit false

namespace Fiff.Call

/-- How a call that succeeded changes the open blocks, innermost first, each given by the index
`index` of its opening call and its kind. -/
def nest (c : Call) (index : Nat) (opened : List (Nat × Int32)) : List (Nat × Int32) :=
  match c with
  | startBlock kind => (index, kind) :: opened
  | endBlock _ => opened.tail
  | _ => opened

def openBlocks (cs : List Call) : List (Nat × Int32) :=
  cs.zipIdx.foldl (fun opened p => p.1.nest p.2 opened) []

def owner (pre : List Call) (c : Call) : Option Nat :=
  match c with
  | startBlock _ => some pre.length
  | _ => (openBlocks pre).head?.map Prod.fst

def entryAfter (pre : List Call) (c : Call) : DirEntry :=
  c.tag.entryAt (Tag.stream (pre.map tag)).length

def filedAfter (pre : List Call) : List Call → Option Nat → List DirEntry
  | [], _ => []
  | c :: cs, o =>
    (if owner pre c = o then [entryAfter pre c] else []) ++ filedAfter (pre ++ [c]) cs o

def filedIn (cs : List Call) (o : Option Nat) : List DirEntry := filedAfter [] cs o

@[simp] theorem openBlocks_nil : openBlocks [] = [] := rfl

theorem openBlocks_append_singleton (cs : List Call) (c : Call) :
    openBlocks (cs ++ [c]) = c.nest cs.length (openBlocks cs) := by
  simp [openBlocks, List.zipIdx_append]

@[simp] theorem filedIn_nil (o : Option Nat) : filedIn [] o = [] := rfl

theorem filedAfter_append_singleton (pre cs : List Call) (c : Call) (o : Option Nat) :
    filedAfter pre (cs ++ [c]) o =
      filedAfter pre cs o ++ if owner (pre ++ cs) c = o then [entryAfter (pre ++ cs) c] else [] := by
  induction cs generalizing pre with
  | nil => simp [filedAfter]
  | cons d cs ih => simp [filedAfter, ih, List.append_assoc]

theorem filedIn_append_singleton (cs : List Call) (c : Call) (o : Option Nat) :
    filedIn (cs ++ [c]) o = filedIn cs o ++ if owner cs c = o then [entryAfter cs c] else [] := by
  simpa [filedIn] using filedAfter_append_singleton [] cs c o

theorem exists_of_mem_filedAfter {pre cs : List Call} {o : Option Nat} {e : DirEntry}
    (h : e ∈ filedAfter pre cs o) :
    ∃ before c after, cs = before ++ c :: after ∧ owner (pre ++ before) c = o ∧
      e = entryAfter (pre ++ before) c := by
  induction cs generalizing pre with
  | nil => cases h
  | cons c cs ih =>
    simp only [filedAfter, List.mem_append] at h
    rcases h with hHere | hLater
    · by_cases hOwner : owner pre c = o
      · rw [if_pos hOwner, List.mem_singleton] at hHere
        exact ⟨[], c, cs, rfl, by simpa using hOwner, by simpa using hHere⟩
      · rw [if_neg hOwner] at hHere
        cases hHere
    · obtain ⟨before, d, after, rfl, hOwner, rfl⟩ := ih hLater
      exact ⟨c :: before, d, after, rfl, by simpa using hOwner, by simp⟩

theorem exists_of_mem_filedIn {cs : List Call} {o : Option Nat} {e : DirEntry}
    (h : e ∈ filedIn cs o) :
    ∃ before c after, cs = before ++ c :: after ∧ owner before c = o ∧ e = entryAfter before c := by
  simpa using @exists_of_mem_filedAfter [] cs o e h

/-! ## Open blocks -/

theorem openBlocks_spec (cs : List Call) :
    (∀ p ∈ openBlocks cs, cs[p.1]? = some (startBlock p.2)) ∧
      (openBlocks cs).Pairwise (fun p q => q.1 < p.1) := by
  induction cs using List.reverseRecOn with
  | nil => simp
  | append_singleton cs c ih =>
    obtain ⟨hCalls, hOrder⟩ := ih
    have hBound : ∀ p ∈ openBlocks cs, p.1 < cs.length := fun p hp =>
      (List.getElem?_eq_some_iff.mp (hCalls p hp)).1
    have hKept : ∀ p ∈ openBlocks cs, (cs ++ [c])[p.1]? = some (startBlock p.2) := fun p hp => by
      rw [List.getElem?_append_left (hBound p hp), hCalls p hp]
    rw [openBlocks_append_singleton]
    cases c with
    | startBlock kind =>
      refine ⟨?_, List.pairwise_cons.mpr ⟨fun q hq => hBound q hq, hOrder⟩⟩
      intro p hp
      rcases List.mem_cons.mp hp with rfl | hp
      · simp
      · exact hKept p hp
    | endBlock kind =>
      exact ⟨fun p hp => hKept p (List.mem_of_mem_tail hp), hOrder.sublist (List.tail_sublist _)⟩
    | writeInt kind value => exact ⟨hKept, hOrder⟩
    | writeString kind value => exact ⟨hKept, hOrder⟩
    | writeNameList kind names => exact ⟨hKept, hOrder⟩
    | writeFloatMatrix kind m => exact ⟨hKept, hOrder⟩

theorem lt_length_of_mem_openBlocks {cs : List Call} {p : Nat × Int32} (hp : p ∈ openBlocks cs) :
    p.1 < cs.length :=
  (List.getElem?_eq_some_iff.mp ((openBlocks_spec cs).1 p hp)).1

theorem owner_lt {pre : List Call} {c : Call} {b : Nat} (h : owner pre c = some b) :
    b ≤ pre.length := by
  cases c with
  | startBlock kind => simp [owner] at h; omega
  | endBlock kind | writeInt kind _ | writeString kind _ | writeNameList kind _
  | writeFloatMatrix kind _ =>
    simp only [owner, Option.map_eq_some_iff, List.head?_eq_some_iff] at h
    obtain ⟨p, ⟨rest, hOpen⟩, rfl⟩ := h
    exact Nat.le_of_lt (lt_length_of_mem_openBlocks (by rw [hOpen]; exact List.mem_cons_self))

theorem filedIn_of_length_le {cs : List Call} {b : Nat} (hb : cs.length ≤ b) :
    filedIn cs (some b) = [] := by
  rw [List.eq_nil_iff_forall_not_mem]
  intro e he
  obtain ⟨before, c, after, rfl, hOwner, -⟩ := exists_of_mem_filedIn he
  have := owner_lt hOwner
  simp at hb
  omega

theorem filedIn_append_of_ne {cs : List Call} {c : Call} {o : Option Nat} (h : owner cs c ≠ o) :
    filedIn (cs ++ [c]) o = filedIn cs o := by
  rw [filedIn_append_singleton, if_neg h, List.append_nil]

theorem filedIn_append_owner (cs : List Call) (c : Call) :
    filedIn (cs ++ [c]) (owner cs c) = filedIn cs (owner cs c) ++ [entryAfter cs c] := by
  rw [filedIn_append_singleton, if_pos rfl]

/-! ## Frames: the open blocks and the root -/

/-- The open blocks of a run, innermost first, then the root: each with the block its tags are
filed in and its kind. -/
def frames (cs : List Call) : List (Option Nat × Int32) :=
  (openBlocks cs).map (fun p => (some p.1, p.2)) ++ [(none, Block.root)]

theorem frames_nodup (cs : List Call) : ((frames cs).map Prod.fst).Nodup := by
  have hOrder := (openBlocks_spec cs).2
  simp only [frames, List.map_append, List.map_map, List.map_cons, List.map_nil]
  refine List.nodup_append.mpr ⟨?_, List.nodup_singleton _, ?_⟩
  · refine List.Pairwise.map _ (fun p q h hEq => ?_) hOrder
    simp only [Function.comp, Option.some.injEq] at hEq
    omega
  · intro a ha b hb
    obtain ⟨p, -, rfl⟩ := List.mem_map.mp ha
    rw [List.mem_singleton.mp hb]
    simp

theorem lt_length_of_mem_frames {cs : List Call} {f : Option Nat × Int32} (hf : f ∈ frames cs)
    {b : Nat} (hb : f.1 = some b) : b < cs.length := by
  simp only [frames, List.mem_append, List.mem_map, List.mem_singleton] at hf
  rcases hf with ⟨p, hp, rfl⟩ | rfl
  · cases hb
    exact lt_length_of_mem_openBlocks hp
  · cases hb

theorem frames_append_startBlock (cs : List Call) (kind : Int32) :
    frames (cs ++ [startBlock kind]) = (some cs.length, kind) :: frames cs := by
  simp [frames, openBlocks_append_singleton, nest]

theorem frames_append_endBlock {cs : List Call} (kind : Int32) :
    frames (cs ++ [endBlock kind]) = if openBlocks cs = [] then frames cs else (frames cs).tail := by
  cases hOpen : openBlocks cs <;> simp [frames, openBlocks_append_singleton, nest, hOpen]

def Plain (c : Call) : Prop := ∀ kind, c ≠ startBlock kind ∧ c ≠ endBlock kind

theorem frames_append_of_plain {cs : List Call} {c : Call} (hc : c.Plain) :
    frames (cs ++ [c]) = frames cs := by
  cases c with
  | startBlock kind => exact absurd rfl (hc kind).1
  | endBlock kind => exact absurd rfl (hc kind).2
  | writeInt _ _ | writeString _ _ | writeNameList _ _ | writeFloatMatrix _ _ =>
    simp [frames, openBlocks_append_singleton, nest]

theorem owner_eq_head_frames {cs : List Call} {c : Call} (hc : ∀ kind, c ≠ startBlock kind) :
    owner cs c = ((frames cs).head?.map Prod.fst).getD none := by
  cases c with
  | startBlock kind => exact absurd rfl (hc kind)
  | endBlock _ | writeInt _ _ | writeString _ _ | writeNameList _ _ | writeFloatMatrix _ _ =>
    cases hOpen : openBlocks cs <;> simp [owner, frames, hOpen]

/-! ## Closed blocks -/

/-- Block `b` of the run `cs` is closed and `N` holds it: call `b` opened a block of the kind
of `N`, `b` is no longer open, and `N` holds the entries filed in `b`. -/
def ClosedBlock (cs : List Call) (b : Nat) (N : Node) : Prop :=
  cs[b]? = some (startBlock N.block) ∧ b ∉ (openBlocks cs).map Prod.fst ∧
    N.directory = filedIn cs (some b)

theorem ClosedBlock.append {cs : List Call} {b : Nat} {N : Node} (h : ClosedBlock cs b N)
    (c : Call) : ClosedBlock (cs ++ [c]) b N := by
  obtain ⟨hCall, hClosed, hFiled⟩ := h
  have hb : b < cs.length := (List.getElem?_eq_some_iff.mp hCall).1
  have hOwner : owner cs c ≠ some b := by
    cases c with
    | startBlock kind => simp [owner]; omega
    | endBlock _ | writeInt _ _ | writeString _ _ | writeNameList _ _ | writeFloatMatrix _ _ =>
      intro hHead
      simp only [owner, Option.map_eq_some_iff, List.head?_eq_some_iff] at hHead
      obtain ⟨p, ⟨rest, hOpen⟩, rfl⟩ := hHead
      exact hClosed (List.mem_map.mpr ⟨p, by rw [hOpen]; exact List.mem_cons_self, rfl⟩)
  refine ⟨by rw [List.getElem?_append_left hb, hCall], ?_, by rw [hFiled, filedIn_append_of_ne hOwner]⟩
  rw [openBlocks_append_singleton]
  cases c with
  | startBlock kind =>
    simp only [nest, List.map_cons, List.mem_cons, not_or]
    exact ⟨by omega, hClosed⟩
  | endBlock kind =>
    intro hIn
    rw [nest, List.map_tail] at hIn
    exact hClosed (List.mem_of_mem_tail hIn)
  | writeInt _ _ | writeString _ _ | writeNameList _ _ | writeFloatMatrix _ _ => exact hClosed

end Fiff.Call
