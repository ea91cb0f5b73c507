import Fiff.Proofs.NamedWrite
import Fiff.Named.Read

/-!
# Labelled matrices read back

A search of a block whose directory holds the entries of tags laid end to end in the stream
finds the first of those tags with the kind sought. In the block of a labelled matrix the tags
have different kinds: the data's kind finds the data, each count kind its count, and each label
kind its labels exactly when they were written.

Labelled matrices written one after another on a new writer, each well formed, under a kind
its block does not use and with payloads that fit a header, are all written, and the stream
reads each back: a kind finds the first matrix written under it, transposed when asked, and a
kind under which nothing was written gives nothing and one `info` note.
-/

set_option autoImplicit false

namespace Fiff

namespace Tag

@[simp] theorem kind_entryAt (t : Tag) (pos : Nat) : (t.entryAt pos).kind = t.kind := rfl

theorem find?_entries_eq_none {κ : Int32} {ts : List Tag} (h : ts.find? (·.kind == κ) = none)
    (pos : Nat) : (entries pos ts).find? (·.kind == κ) = none := by
  induction ts generalizing pos with
  | nil => rfl
  | cons t ts ih =>
    have hNot : ¬ (t.kind == κ) = true := by
      intro hKind
      rw [List.find?_cons_of_pos (p := fun x : Tag => x.kind == κ) hKind] at h
      cases h
    rw [List.find?_cons_of_neg (p := fun x : Tag => x.kind == κ) hNot] at h
    rw [entries, List.find?_cons_of_neg (by simpa using hNot), ih h]

theorem find?_entries_eq_some {κ : Int32} {ts : List Tag} {t : Tag}
    (h : ts.find? (·.kind == κ) = some t) (pos : Nat) :
    ∃ before after, ts = before ++ t :: after ∧
      (entries pos ts).find? (·.kind == κ) = some (t.entryAt (pos + (stream before).length)) := by
  induction ts generalizing pos with
  | nil => cases h
  | cons u ts ih =>
    by_cases hu : (u.kind == κ) = true
    · rw [List.find?_cons_of_pos (p := fun x : Tag => x.kind == κ) hu, Option.some.injEq] at h
      subst h
      exact ⟨[], ts, rfl, List.find?_cons_of_pos (by simpa using hu)⟩
    · rw [List.find?_cons_of_neg (p := fun x : Tag => x.kind == κ) hu] at h
      obtain ⟨before, after, rfl, hFind⟩ := ih h (pos + u.frame.length)
      refine ⟨u :: before, after, rfl, ?_⟩
      rw [entries, List.find?_cons_of_neg (by simpa using hu), hFind, stream_cons,
        List.length_append, Nat.add_assoc]

theorem any_entries (pos : Nat) (ts : List Tag) (κ : Int32) :
    (entries pos ts).any (·.kind == κ) = ts.any (·.kind == κ) := by
  induction ts generalizing pos with
  | nil => rfl
  | cons t ts ih => simp [entries, ih]

end Tag

namespace Reader

theorem findTag_entries {ts : List Tag} (hFits : ∀ t ∈ ts, t.Fits) {pre post : List UInt8}
    {r : Reader} (hBytes : r.bytes = pre ++ Tag.stream ts ++ post) {n : Node}
    (hDir : n.directory = Tag.entries pre.length ts) (κ : Int32) :
    ∃ r', (findTag n κ).run r = .ok (ts.find? (·.kind == κ)) r' ∧ r'.bytes = r.bytes := by
  cases hFind : ts.find? (·.kind == κ) with
  | none =>
    have hEntry : n.entryOf κ = none := by
      rw [Node.entryOf, hDir]
      exact Tag.find?_entries_eq_none hFind _
    refine ⟨r, ?_, rfl⟩
    simp only [findTag, hEntry]
    rfl
  | some t =>
    obtain ⟨before, after, hSplit, hEntry⟩ := Tag.find?_entries_eq_some hFind pre.length
    have hEntry' : n.entryOf κ = some (t.entryAt (pre ++ Tag.stream before).length) := by
      rw [Node.entryOf, hDir, hEntry, List.length_append]
    obtain ⟨r', hRead, hSame⟩ := readTag_frame (hFits t (by simp [hSplit]))
      (pre ++ Tag.stream before) (Tag.stream after ++ post) r
      (by rw [hBytes, hSplit, Tag.stream_append, Tag.stream_cons]; simp)
    refine ⟨r', ?_, hSame⟩
    simp only [findTag, hEntry']
    rw [EStateM.run_bind, hRead]
    rfl

end Reader

theorem adaptExcept_run_of_ok {ε ε' σ α : Type} {f : ε → ε'} {x : EStateM ε σ α}
    {s s' : σ} {a : α} (h : x.run s = .ok a s') : (x.adaptExcept f).run s = .ok a s' := by
  simp only [EStateM.run, EStateM.adaptExcept] at h ⊢
  rw [h]

section

variable {ρ : Type} [TagRead ρ] {n : Node} {κ : Int32} {r r' : ρ}

theorem checkCount_of_findTag {axis : Axis} {count : Nat} (hCount : count ≤ Writer.maxDimension)
    (hFind : (TagRead.findTag n κ).run r = .ok (some ⟨κ, .int (Int32.ofNat count)⟩) r') :
    (checkCount n κ axis count : EStateM MatrixError ρ Unit).run r = .ok () r' := by
  have hWord : (Int32.ofNat count).toInt = count :=
    Int32.toInt_ofNat_of_lt (by unfold Writer.maxDimension at hCount; omega)
  have hNonneg : 0 ≤ Int32.ofNat count := by
    rw [Int32.le_iff_toInt_le, hWord]
    simp
  simp only [checkCount, EStateM.run_bind, adaptExcept_run_of_ok hFind, Tag.asInt, hWord, hNonneg]
  simp

theorem readNames_of_findTag {names : List String} (hNames : ∀ s ∈ names, ':' ∉ s.toList)
    (hFind : (TagRead.findTag n κ).run r =
      .ok (if names = [] then none else some ⟨κ, .string (Labels.join names)⟩) r') :
    (readNames n κ : EStateM MatrixError ρ (List String)).run r = .ok names r' := by
  by_cases hEmpty : names = []
  · rw [if_pos hEmpty] at hFind
    simp only [readNames, EStateM.run_bind, adaptExcept_run_of_ok hFind, hEmpty]
    rfl
  · rw [if_neg hEmpty] at hFind
    have hSplit : Labels.split (Labels.join names) = names := by
      unfold Labels.split Labels.join
      rw [show ":" = String.singleton ':' from rfl, String.toList_split_intercalate hNames,
        if_neg hEmpty]
    simp only [readNames, EStateM.run_bind, adaptExcept_run_of_ok hFind, Tag.asStr, hSplit]
    rfl

variable [Journal ρ] {root : Node} {k : Int32}

theorem readNamedMatrix_of_locate_none (opts : ReadOptions) (hLocate : root.locateNamed? k = none)
    (r : ρ) :
    (readNamedMatrix root k opts).run r = .ok none (Journal.note r ⟨.info, .matrixRead,
      s!"{opts.indent}Desired named matrix (kind = {k.toInt}) not available"⟩) := by
  simp only [readNamedMatrix, hLocate]
  rfl

theorem readNamedMatrix_of_locate_some (opts : ReadOptions) {block : Node}
    (hLocate : root.locateNamed? k = some block) {d : Matrix} {rowNames colNames : List String}
    {r₀ r₁ r₂ r₃ r₄ r₅ : ρ}
    (hData : (TagRead.findTag block k).run r₀ = .ok (some ⟨k, .floatMatrix d⟩) r₁)
    (hRows : (checkCount block Kind.nrow .rows d.rows : EStateM MatrixError ρ Unit).run r₁ =
      .ok () r₂)
    (hCols : (checkCount block Kind.ncol .columns d.cols : EStateM MatrixError ρ Unit).run r₂ =
      .ok () r₃)
    (hRowNames : (readNames block Kind.rowNames : EStateM MatrixError ρ _).run r₃ =
      .ok rowNames r₄)
    (hColNames : (readNames block Kind.colNames : EStateM MatrixError ρ _).run r₄ =
      .ok colNames r₅) :
    ∃ r, (readNamedMatrix root k opts).run r₀ = .ok (some (if opts.transpose
      then (⟨d.rows, d.cols, rowNames, colNames, d⟩ : NamedMatrix).transpose
      else ⟨d.rows, d.cols, rowNames, colNames, d⟩)) r := by
  simp only [readNamedMatrix, hLocate, EStateM.run_bind, adaptExcept_run_of_ok hData,
    Tag.asFloatMatrix, EStateM.run_pure, hRows, hCols, hRowNames, hColNames, EStateM.run_modify]
  exact ⟨_, rfl⟩

end

namespace NamedMatrix

private theorem ne_of_not_reserved {kind : Int32} (hk : kind ∉ reservedKinds) :
    kind ≠ 104 ∧ kind ≠ 105 ∧ kind ≠ 3502 ∧ kind ≠ 3503 ∧ kind ≠ 3504 ∧
      kind ≠ 3505 := by
  simpa [reservedKinds, Kind.blockStart, Kind.blockEnd, Kind.rowNames, Kind.colNames, Kind.nrow,
    Kind.ncol] using hk

theorem LabelsFor.colon_free {names : List String} {count : Nat} (h : LabelsFor names count) :
    ∀ s ∈ names, ':' ∉ s.toList := by
  rcases h with rfl | ⟨-, h⟩
  · simp
  · exact h

theorem fits_tags {kind : Int32} {m : NamedMatrix} (hm : m.WellFormed) (hFit : m.PayloadsFit) :
    ∀ t ∈ (calls kind m).map Call.tag, t.Fits := by
  intro t ht
  obtain ⟨c, hc, rfl⟩ := List.mem_map.mp ht
  rw [calls, List.cons_append, List.mem_cons, List.mem_append, List.mem_singleton] at hc
  rcases hc with rfl | hc | rfl
  · exact Call.fits_int _ _
  · exact (contents_plain kind hm hFit c hc).2
  · exact Call.fits_int _ _

def leadingKinds : List Int32 := [Kind.blockStart, Kind.nrow, Kind.ncol, Kind.rowNames, Kind.colNames]

private theorem ne_of_not_leading {kind : Int32} (hk : kind ∉ leadingKinds) :
    kind ≠ 104 ∧ kind ≠ 3502 ∧ kind ≠ 3503 ∧ kind ≠ 3504 ∧ kind ≠ 3505 := by
  simpa [leadingKinds, Kind.blockStart, Kind.rowNames, Kind.colNames, Kind.nrow, Kind.ncol,
    and_comm, and_left_comm, and_assoc] using hk

theorem not_leading_of_not_reserved {kind : Int32} (hk : kind ∉ reservedKinds) :
    kind ∉ leadingKinds := by
  simp only [reservedKinds, leadingKinds, List.mem_cons, List.not_mem_nil, or_false] at hk ⊢
  tauto

theorem find?_data_of_not_leading {kind : Int32} (hk : kind ∉ leadingKinds) (m : NamedMatrix) :
    ((calls kind m).map Call.tag).find? (·.kind == kind) =
      some ⟨kind, .floatMatrix m.data⟩ := by
  obtain ⟨h₁, h₃, h₄, h₅, h₆⟩ := ne_of_not_leading hk
  by_cases hRows : m.rowNames = [] <;> by_cases hCols : m.colNames = [] <;>
    simp [calls, contents, preamble, labelCall, Call.tag, Kind.blockStart, Kind.rowNames,
      Kind.colNames, Kind.nrow, Kind.ncol, hRows, hCols, Ne.symm h₁, Ne.symm h₃, Ne.symm h₄,
      Ne.symm h₅, Ne.symm h₆]

theorem find?_data {kind : Int32} (hk : kind ∉ reservedKinds) (m : NamedMatrix) :
    ((calls kind m).map Call.tag).find? (·.kind == kind) =
      some ⟨kind, .floatMatrix m.data⟩ :=
  find?_data_of_not_leading (not_leading_of_not_reserved hk) m

theorem find?_blockStart (kind : Int32) (m : NamedMatrix) :
    ((calls kind m).map Call.tag).find? (·.kind == Kind.blockStart) =
      some ⟨Kind.blockStart, .int Block.namedMatrix⟩ := by
  simp [calls, Call.tag]

theorem find?_count {kind : Int32} (m : NamedMatrix) {κ : Int32} {count : Nat}
    (hκ : (κ, count) = (Kind.nrow, m.nrow) ∨ (κ, count) = (Kind.ncol, m.ncol)) :
    ((calls kind m).map Call.tag).find? (·.kind == κ) =
      some ⟨κ, .int (Int32.ofNat count)⟩ := by
  rcases hκ with h | h <;> cases h <;>
    simp [calls, contents, preamble, Call.tag, Kind.blockStart, Kind.nrow, Kind.ncol]

theorem find?_labels_of_not_leading {kind : Int32} (hk : kind ∉ leadingKinds) (m : NamedMatrix)
    {κ : Int32} {names : List String}
    (hκ : (κ, names) = (Kind.rowNames, m.rowNames) ∨
      (κ, names) = (Kind.colNames, m.colNames)) :
    ((calls kind m).map Call.tag).find? (·.kind == κ) =
      if names = [] then none else some ⟨κ, .string (Labels.join names)⟩ := by
  obtain ⟨-, h₃, h₄, -, -⟩ := ne_of_not_leading hk
  rcases hκ with h | h <;> cases h <;>
    by_cases hRows : m.rowNames = [] <;> by_cases hCols : m.colNames = [] <;>
    simp [calls, contents, preamble, labelCall, Call.tag, Labels.join, Kind.blockStart,
      Kind.blockEnd, Kind.rowNames, Kind.colNames, Kind.nrow, Kind.ncol, hRows, hCols, h₃, h₄]

theorem find?_labels {kind : Int32} (hk : kind ∉ reservedKinds) (m : NamedMatrix) {κ : Int32}
    {names : List String}
    (hκ : (κ, names) = (Kind.rowNames, m.rowNames) ∨
      (κ, names) = (Kind.colNames, m.colNames)) :
    ((calls kind m).map Call.tag).find? (·.kind == κ) =
      if names = [] then none else some ⟨κ, .string (Labels.join names)⟩ :=
  find?_labels_of_not_leading (not_leading_of_not_reserved hk) m hκ

theorem hasTag_block {k : Int32} (hk : k ∉ reservedKinds) (pos : Nat) (kind : Int32)
    (m : NamedMatrix) : (block pos kind m).hasTag k = true ↔ kind = k := by
  obtain ⟨h₁, h₂, h₃, h₄, h₅, h₆⟩ := ne_of_not_reserved hk
  rw [Node.hasTag, block, Tag.any_entries]
  by_cases hRows : m.rowNames = [] <;> by_cases hCols : m.colNames = [] <;>
    simp [calls, contents, preamble, labelCall, Call.tag, Kind.blockStart, Kind.blockEnd,
      Kind.rowNames, Kind.colNames, Kind.nrow, Kind.ncol, hRows, hCols, Ne.symm h₁, Ne.symm h₂,
      Ne.symm h₃, Ne.symm h₄, Ne.symm h₅, Ne.symm h₆]

theorem find?_blocks_of_lookup_none {k : Int32} (hk : k ∉ reservedKinds)
    {ms : List (Int32 × NamedMatrix)} (h : ms.lookup k = none) (pos : Nat) :
    (blocks pos ms).find? (fun c => c.block == Block.namedMatrix && c.hasTag k) = none := by
  induction ms generalizing pos with
  | nil => rfl
  | cons p ms ih =>
    obtain ⟨kind, m⟩ := p
    have hne : kind ≠ k := by
      rintro rfl
      simp at h
    rw [List.lookup_cons, beq_false_of_ne (Ne.symm hne)] at h
    rw [blocks, List.find?_cons_of_neg (by simp [hasTag_block hk, hne]), ih h]

theorem find?_blocks_of_lookup_some {k : Int32} (hk : k ∉ reservedKinds)
    {ms : List (Int32 × NamedMatrix)} {m : NamedMatrix} (h : ms.lookup k = some m) (pos : Nat) :
    ∃ pre post, Tag.stream ((callsAll ms).map Call.tag) =
        pre ++ Tag.stream ((calls k m).map Call.tag) ++ post ∧
      (blocks pos ms).find? (fun c => c.block == Block.namedMatrix && c.hasTag k) =
        some (block (pos + pre.length) k m) := by
  induction ms generalizing pos with
  | nil => cases h
  | cons p ms ih =>
    obtain ⟨kind, m'⟩ := p
    by_cases hKind : kind = k
    · subst hKind
      rw [List.lookup_cons, beq_self_eq_true, Option.some.injEq] at h
      subst h
      refine ⟨[], Tag.stream ((callsAll ms).map Call.tag), ?_, ?_⟩
      · rw [callsAll_cons, List.map_append, Tag.stream_append, List.nil_append]
      · rw [blocks, List.find?_cons_of_pos (by simp [hasTag_block hk])]
        rfl
    · rw [List.lookup_cons, beq_false_of_ne (Ne.symm hKind)] at h
      obtain ⟨pre, post, hStream, hFind⟩ :=
        ih h (pos + (Tag.stream ((calls kind m').map Call.tag)).length)
      refine ⟨Tag.stream ((calls kind m').map Call.tag) ++ pre, post, ?_, ?_⟩
      · rw [callsAll_cons, List.map_append, Tag.stream_append, hStream]
        simp only [List.append_assoc]
      · rw [blocks, List.find?_cons_of_neg (by simp [hasTag_block hk, hKind]), hFind,
          List.length_append, Nat.add_assoc]

theorem readNamedMatrix_block {root : Node} {k : Int32} (hk : k ∉ reservedKinds)
    {m : NamedMatrix} (hm : m.WellFormed) (hFit : m.PayloadsFit) {pre post : List UInt8}
    (hLocate : root.locateNamed? k = some (block pre.length k m)) (opts : ReadOptions)
    {r : Reader} (hBytes : r.bytes = pre ++ Tag.stream ((calls k m).map Call.tag) ++ post) :
    ∃ r', (readNamedMatrix root k opts).run r =
      .ok (some (if opts.transpose then m.transpose else m)) r' := by
  have hFind : ∀ κ (s : Reader), s.bytes = r.bytes → ∃ s',
      (TagRead.findTag (block pre.length k m) κ).run s =
        .ok (((calls k m).map Call.tag).find? (·.kind == κ)) s' ∧ s'.bytes = r.bytes := by
    intro κ s hs
    obtain ⟨s', hRun, hSame⟩ :=
      Reader.findTag_entries (fits_tags hm hFit) (hs.trans hBytes)
        (n := block pre.length k m) rfl κ
    exact ⟨s', hRun, hSame.trans hs⟩
  obtain ⟨r₁, hData, h₁⟩ := hFind k r rfl
  obtain ⟨r₂, hRows, h₂⟩ := hFind Kind.nrow r₁ h₁
  obtain ⟨r₃, hCols, h₃⟩ := hFind Kind.ncol r₂ h₂
  obtain ⟨r₄, hRowNames, h₄⟩ := hFind Kind.rowNames r₃ h₃
  obtain ⟨r₅, hColNames, -⟩ := hFind Kind.colNames r₄ h₄
  rw [find?_data hk] at hData
  rw [find?_count m (.inl rfl), ← hm.rows] at hRows
  rw [find?_count m (.inr rfl), ← hm.cols] at hCols
  rw [find?_labels hk m (.inl rfl)] at hRowNames
  rw [find?_labels hk m (.inr rfl)] at hColNames
  obtain ⟨r', hRead⟩ := readNamedMatrix_of_locate_some opts hLocate hData
    (checkCount_of_findTag (hm.rows ▸ hm.nrow_le) hRows)
    (checkCount_of_findTag (hm.cols ▸ hm.ncol_le) hCols)
    (readNames_of_findTag hm.rowNames.colon_free hRowNames)
    (readNames_of_findTag hm.colNames.colon_free hColNames)
  have hSame :
      (⟨m.data.rows, m.data.cols, m.rowNames, m.colNames, m.data⟩ : NamedMatrix) = m := by
    obtain ⟨nrow, ncol, rowNames, colNames, data⟩ := m
    obtain ⟨hRowCount, hColCount, -⟩ := hm
    dsimp only at hRowCount hColCount
    rw [hRowCount, hColCount]
  rw [hSame] at hRead
  exact ⟨r', hRead⟩

end NamedMatrix

open NamedMatrix in
/-- Labelled matrices written one after another on a new writer, each well formed, under a kind
that no labelled-matrix block uses itself and with payloads that fit a header, are all written
and the writer finishes. Over the bytes and the tree, reading a kind that no such block uses
itself gives the first matrix written under it, transposed when asked; when none was, it gives
nothing and one `info` note. -/
theorem named_matrices_read_back (ms : List (Int32 × NamedMatrix))
    (hms : ∀ p ∈ ms, p.1 ∉ reservedKinds ∧ p.2.WellFormed ∧ p.2.PayloadsFit) :
    ∃ w bytes root, (writeNamedMatrices ms).run Writer.new = .ok () w ∧
      w.finish = .ok (bytes, root) ∧
      ∀ k ∉ reservedKinds, ∀ opts : ReadOptions, ∃ r,
        (readNamedMatrix root k opts).run (Reader.new bytes) =
          .ok ((ms.lookup k).map fun m => if opts.transpose then m.transpose else m) r ∧
        (ms.lookup k = none → r.notes = [⟨.info, .matrixRead,
          s!"{opts.indent}Desired named matrix (kind = {k.toInt}) not available"⟩]) := by
  obtain ⟨w, hRun, hFinish⟩ := writeNamedMatrices_finish fun p hp => (hms p hp).2
  refine ⟨w, _, _, hRun, hFinish, fun k hk opts => ?_⟩
  have hRoot : (⟨Block.root, [], blocks 0 ms⟩ : Node).locateNamed? k =
      (blocks 0 ms).find? fun c => c.block == Block.namedMatrix && c.hasTag k := by
    simp [Node.locateNamed?, Block.root, Block.namedMatrix]
  cases hLookup : ms.lookup k with
  | none =>
    refine ⟨_, readNamedMatrix_of_locate_none opts ?_ _, fun _ => rfl⟩
    rw [hRoot, find?_blocks_of_lookup_none hk hLookup]
  | some m =>
    obtain ⟨l₁, l₂, hSplit, -⟩ := List.lookup_eq_some_iff.mp hLookup
    obtain ⟨-, hm, hFit⟩ := hms (k, m) (by simp [hSplit])
    obtain ⟨pre, post, hStream, hFind⟩ := find?_blocks_of_lookup_some hk hLookup 0
    rw [Nat.zero_add] at hFind
    obtain ⟨r, hRead⟩ := readNamedMatrix_block hk hm hFit (hRoot.trans hFind) opts
      (r := Reader.new _) hStream
    exact ⟨r, hRead, fun h => by cases h⟩

open NamedMatrix in
/-- Two labelled matrices under one kind, the first with labels on both axes and a negative
zero: the hypothesis of `named_matrices_read_back` is met. -/
theorem named_matrices_read_back_twice :
    let ms : List (Int32 × NamedMatrix) :=
      [(3562, ⟨1, 2, ["r"], ["a", "b"], ⟨1, 2, [⟨0x3f800000⟩, ⟨0x80000000⟩], rfl⟩⟩),
        (3562, ⟨1, 1, [], [], ⟨1, 1, [⟨0x7fc00001⟩], rfl⟩⟩)]
    (∀ p ∈ ms, p.1 ∉ reservedKinds ∧ p.2.WellFormed ∧ p.2.PayloadsFit) ∧
      ∃ w bytes root, (writeNamedMatrices ms).run Writer.new = .ok () w ∧
        w.finish = .ok (bytes, root) ∧
        ∀ k ∉ reservedKinds, ∀ opts : ReadOptions, ∃ r,
          (readNamedMatrix root k opts).run (Reader.new bytes) =
            .ok ((ms.lookup k).map fun m => if opts.transpose then m.transpose else m) r ∧
          (ms.lookup k = none → r.notes = [⟨.info, .matrixRead,
            s!"{opts.indent}Desired named matrix (kind = {k.toInt}) not available"⟩]) := by
  intro ms
  have hms : ∀ p ∈ ms, p.1 ∉ reservedKinds ∧ p.2.WellFormed ∧ p.2.PayloadsFit := by
    intro p hp
    simp only [ms, List.mem_cons, List.not_mem_nil, or_false] at hp
    rcases hp with rfl | rfl
    · exact ⟨by decide, ⟨rfl, rfl, by decide, by decide, .inr ⟨rfl, by decide⟩,
        .inr ⟨rfl, by decide⟩⟩, ⟨by decide, by decide, by decide⟩⟩
    · exact ⟨by decide, ⟨rfl, rfl, by decide, by decide, .inl rfl, .inl rfl⟩,
        ⟨by decide, by decide, by decide⟩⟩
  exact ⟨hms, named_matrices_read_back ms hms⟩

end Fiff
