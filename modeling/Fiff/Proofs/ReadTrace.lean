import Fiff.Proofs.NamedRead

/-!
# What a labelled-matrix read does on any tag source

A read of kind `k` at a block `n` uses one block, the one `n` *locates*: `n` itself when it is a
labelled-matrix block with a tag of kind `k`, and otherwise the first child of `n` that is one.
Without such a block the read gives nothing and leaves one `info` note. With it, the read makes
its searches in that block only: the data, the two counts, the two label lists, in this order.
It succeeds exactly when the data search finds a float matrix, each count search finds nothing
or a signed word equal to the data's count, and each label search finds nothing or a text; the
matrix read has the data's counts and the labels split at `:`, transposed when asked.

The source is arbitrary: it may answer a search with any tag, of any kind and data type, and
change its state as it likes. A `Watched` source records every search with its answer, and
every note; a read on it does to the inner source what it does on that source itself.
-/

set_option autoImplicit false

namespace Fiff

/-! ## The block a read uses -/

namespace Node

def HoldsNamed (k : Int32) (c : Node) : Prop :=
  c.block = Block.namedMatrix ∧ ∃ e ∈ c.directory, e.kind = k

/-- The block a read of kind `k` at `n` uses: `n` itself when it holds the kind, or, when `n` is
no labelled-matrix block, the first of its children that does. A labelled-matrix block never
offers its children, and no block offers its grandchildren. -/
def Locates (n : Node) (k : Int32) (b : Node) : Prop :=
  (n.HoldsNamed k ∧ b = n) ∨
    (n.block ≠ Block.namedMatrix ∧ ∃ before after, n.children = before ++ b :: after ∧
      b.HoldsNamed k ∧ ∀ c ∈ before, ¬ c.HoldsNamed k)

theorem hasTag_iff (n : Node) (k : Int32) : n.hasTag k = true ↔ ∃ e ∈ n.directory, e.kind = k := by
  simp [hasTag]

theorem holdsNamed_iff (c : Node) (k : Int32) :
    (c.block == Block.namedMatrix && c.hasTag k) = true ↔ c.HoldsNamed k := by
  rw [Bool.and_eq_true, beq_iff_eq, hasTag_iff]
  rfl

theorem locateNamed?_eq_some_iff {n : Node} {k : Int32} {b : Node} :
    n.locateNamed? k = some b ↔ n.Locates k b := by
  unfold locateNamed? Locates
  by_cases hBlock : n.block = Block.namedMatrix
  · have hHolds : n.hasTag k = true ↔ n.HoldsNamed k := by
      rw [hasTag_iff]
      exact ⟨fun h => ⟨hBlock, h⟩, fun h => h.2⟩
    rw [if_pos hBlock]
    by_cases hTag : n.hasTag k = true
    · simp only [if_pos hTag, Option.some.injEq, hHolds.mp hTag, true_and, hBlock, ne_eq,
        not_true_eq_false, false_and, or_false]
      exact eq_comm
    · simp only [hTag, Bool.false_eq_true, if_false, reduceCtorEq, false_iff, not_or]
      exact ⟨fun h => hTag (hHolds.mpr h.1), fun h => h.1 hBlock⟩
  · rw [if_neg hBlock, List.find?_eq_some_iff_append]
    simp only [holdsNamed_iff, Bool.not_eq_true', Bool.eq_false_iff, ne_eq, holdsNamed_iff]
    constructor
    · rintro ⟨hb, before, after, hSplit, hBefore⟩
      exact .inr ⟨hBlock, before, after, hSplit, hb, hBefore⟩
    · rintro (⟨hn, -⟩ | ⟨-, before, after, hSplit, hb, hBefore⟩)
      · exact absurd hn.1 hBlock
      · exact ⟨hb, before, after, hSplit, hBefore⟩

theorem locateNamed?_eq_none_iff {n : Node} {k : Int32} :
    n.locateNamed? k = none ↔ ∀ b, ¬ n.Locates k b := by
  simp only [Option.eq_none_iff_forall_ne_some, ne_eq, locateNamed?_eq_some_iff]

end Node

/-! ## Watching a tag source -/

/-- What happens on a tag source while a matrix is read: a search of a block for a kind, with
its answer, or a note. -/
inductive ReadEvent where
  | find (block : Node) (kind : Int32) (answer : Except TagError (Option Tag))
  | note (n : Note)

def ReadEvent.Within (b : Node) : ReadEvent → Prop
  | find n _ _ => n = b
  | note _ => True

theorem ReadEvent.within_append {b : Node} {evs : List ReadEvent} {e : ReadEvent}
    (h : ∀ ev ∈ evs, ev.Within b) (he : e.Within b) : ∀ ev ∈ evs ++ [e], ev.Within b := by
  intro ev hev
  rcases List.mem_append.mp hev with hev | hev
  · exact h ev hev
  · rw [List.mem_singleton.mp hev]
    exact he

/-- A tag source together with every search made on it, with its answer, and every note left,
in order. -/
structure Watched (ρ : Type) where
  inner : ρ
  events : List ReadEvent

namespace Watched

variable {ρ : Type}

def new (r : ρ) : Watched ρ := ⟨r, []⟩

def findTag [TagRead ρ] (n : Node) (kind : Int32) : EStateM TagError (Watched ρ) (Option Tag) :=
  fun t => match (TagRead.findTag n kind).run t.inner with
    | .ok o s => .ok o ⟨s, t.events ++ [.find n kind (.ok o)]⟩
    | .error e s => .error e ⟨s, t.events ++ [.find n kind (.error e)]⟩

instance [TagRead ρ] : TagRead (Watched ρ) := ⟨findTag⟩

instance [Journal ρ] : Journal (Watched ρ) :=
  ⟨fun t n => ⟨Journal.note t.inner n, t.events ++ [.note n]⟩⟩

def project {ε α : Type} : EStateM.Result ε (Watched ρ) α → EStateM.Result ε ρ α
  | .ok a t => .ok a t.inner
  | .error e t => .error e t.inner

def Simulates {ε α : Type} (x : EStateM ε (Watched ρ) α) (y : EStateM ε ρ α) : Prop :=
  ∀ t, project (x.run t) = y.run t.inner

def Confined {ε α : Type} (b : Node) (x : EStateM ε (Watched ρ) α) : Prop :=
  ∀ t, (∀ ev ∈ t.events, ev.Within b) → ∀ ev ∈ (resultState (x.run t)).events, ev.Within b

section

variable {ε α β : Type}

theorem Simulates.pure (a : α) : Simulates (Pure.pure a : EStateM ε (Watched ρ) α) (Pure.pure a) :=
  fun _ => rfl

theorem Simulates.throw (e : ε) :
    Simulates (MonadExcept.throw e : EStateM ε (Watched ρ) α) (MonadExcept.throw e) :=
  fun _ => rfl

theorem Simulates.bind {x : EStateM ε (Watched ρ) α} {y : EStateM ε ρ α}
    {f : α → EStateM ε (Watched ρ) β} {g : α → EStateM ε ρ β} (hx : Simulates x y)
    (hf : ∀ a, Simulates (f a) (g a)) : Simulates (x >>= f) (y >>= g) := by
  intro t
  rw [EStateM.run_bind, EStateM.run_bind, ← hx t]
  cases x.run t with
  | ok a t' => exact hf a t'
  | error e t' => rfl

theorem Simulates.adaptExcept {ε' : Type} {x : EStateM ε (Watched ρ) α} {y : EStateM ε ρ α}
    (hx : Simulates x y) (f : ε → ε') : Simulates (x.adaptExcept f) (y.adaptExcept f) := by
  intro t
  have h := hx t
  simp only [EStateM.run, EStateM.adaptExcept] at h ⊢
  cases hRun : x t with
  | ok a t' => rw [hRun] at h; simp only [project] at h ⊢; rw [← h]
  | error e t' => rw [hRun] at h; simp only [project] at h ⊢; rw [← h]

theorem Confined.pure (b : Node) (a : α) : Confined b (Pure.pure a : EStateM ε (Watched ρ) α) :=
  fun _ ht => ht

theorem Confined.throw (b : Node) (e : ε) :
    Confined b (MonadExcept.throw e : EStateM ε (Watched ρ) α) :=
  fun _ ht => ht

theorem Confined.bind {b : Node} {x : EStateM ε (Watched ρ) α} {f : α → EStateM ε (Watched ρ) β}
    (hx : Confined b x) (hf : ∀ a, Confined b (f a)) : Confined b (x >>= f) := by
  intro t ht
  have hMid := hx t ht
  rw [EStateM.run_bind]
  cases hRun : x.run t with
  | ok a t' => rw [hRun] at hMid; exact hf a t' hMid
  | error e t' => rw [hRun] at hMid; exact hMid

theorem Confined.adaptExcept {ε' : Type} {b : Node} {x : EStateM ε (Watched ρ) α}
    (hx : Confined b x) (f : ε → ε') : Confined b (x.adaptExcept f) := by
  intro t ht
  have h := hx t ht
  simp only [EStateM.run, EStateM.adaptExcept] at h ⊢
  cases hRun : x t <;> rw [hRun] at h <;> exact h

end

section

variable [TagRead ρ]

theorem simulates_findTag (n : Node) (kind : Int32) :
    Simulates (TagRead.findTag n kind : EStateM TagError (Watched ρ) (Option Tag))
      (TagRead.findTag n kind) := by
  intro t
  show project (findTag n kind t) = _
  unfold findTag
  cases (TagRead.findTag n kind).run t.inner <;> rfl

theorem confined_findTag (b : Node) (kind : Int32) :
    Confined b (TagRead.findTag b kind : EStateM TagError (Watched ρ) (Option Tag)) := by
  intro t ht
  show ∀ ev ∈ (resultState (findTag b kind t)).events, _
  unfold findTag
  cases (TagRead.findTag b kind).run t.inner with
  | ok o s => exact ReadEvent.within_append ht rfl
  | error e s => exact ReadEvent.within_append ht rfl

theorem findTag_run_ok {n : Node} {kind : Int32} {t t' : Watched ρ} {o : Option Tag}
    (h : (TagRead.findTag n kind : EStateM TagError (Watched ρ) (Option Tag)).run t = .ok o t') :
    (TagRead.findTag n kind).run t.inner = .ok o t'.inner ∧
      t'.events = t.events ++ [.find n kind (.ok o)] := by
  change findTag n kind t = _ at h
  unfold findTag at h
  cases hRun : (TagRead.findTag n kind).run t.inner with
  | ok o' s =>
    rw [hRun] at h
    cases h
    exact ⟨rfl, rfl⟩
  | error e s =>
    rw [hRun] at h
    cases h

end

section

variable [Journal ρ]

theorem simulates_note (n : Note) {ε : Type} :
    Simulates (modify (Journal.note · n) : EStateM ε (Watched ρ) PUnit)
      (modify (Journal.note · n)) :=
  fun _ => rfl

theorem confined_note (b : Node) (n : Note) {ε : Type} :
    Confined b (modify (Journal.note · n) : EStateM ε (Watched ρ) PUnit) :=
  fun _ ht => ReadEvent.within_append ht trivial

end

end Watched

/-! ## Successful reads, on any source -/

theorem run_bind_eq_ok_iff {ε σ α β : Type} {x : EStateM ε σ α} {f : α → EStateM ε σ β}
    {s s' : σ} {b : β} :
    (x >>= f).run s = .ok b s' ↔ ∃ a s₁, x.run s = .ok a s₁ ∧ (f a).run s₁ = .ok b s' := by
  rw [EStateM.run_bind]
  cases x.run s with
  | ok a s₁ => simp
  | error e s₁ => simp

theorem run_adaptExcept_eq_ok_iff {ε ε' σ α : Type} {f : ε → ε'} {x : EStateM ε σ α} {s s' : σ}
    {a : α} : (x.adaptExcept f).run s = .ok a s' ↔ x.run s = .ok a s' := by
  rw [EStateM.run_adaptExcept]
  cases x.run s <;> simp

/-- A count search lets a read go on: it found nothing, or a signed word equal to the count, so
that a negative word never matches. -/
def CountAgrees (found : Option Tag) (count : Nat) : Prop :=
  ∀ t ∈ found, ∃ v : Int32, t.data = .int v ∧ v.toInt = count

/-- The labels a label search gives: none when it found nothing, the pieces of its text
otherwise. -/
def LabelsFrom : Option Tag → List String → Prop
  | none, names => names = []
  | some t, names => ∃ s, t.data = .string s ∧ names = Labels.split s

/-- The kinds a read of data kind `k` searches its block for, in order: the data, the row and
column counts, the row and column labels. -/
def readKinds (k : Int32) : List Int32 := [k, Kind.nrow, Kind.ncol, Kind.rowNames, Kind.colNames]

/-- The answers of the five searches of a successful read, and the matrix they give: the data
search finds a float matrix, each count search agrees with its count, each label search gives
labels, and the matrix has the data's counts, transposed when asked. -/
def ReadAnswers (opts : ReadOptions) : List (Option Tag) → NamedMatrix → Prop
  | [some data, rows, cols, rowNames, colNames], m =>
    ∃ (d : Matrix) (rn cn : List String), data.data = .floatMatrix d ∧ CountAgrees rows d.rows ∧
      CountAgrees cols d.cols ∧ LabelsFrom rowNames rn ∧ LabelsFrom colNames cn ∧
      m = if opts.transpose then (⟨d.rows, d.cols, rn, cn, d⟩ : NamedMatrix).transpose
        else ⟨d.rows, d.cols, rn, cn, d⟩
  | _, _ => False

theorem readAnswers_iff {opts : ReadOptions} {data rows cols rowNames colNames : Option Tag}
    {m : NamedMatrix} :
    ReadAnswers opts [data, rows, cols, rowNames, colNames] m ↔
      ∃ (t : Tag) (d : Matrix) (rn cn : List String), data = some t ∧ t.data = .floatMatrix d ∧
        CountAgrees rows d.rows ∧ CountAgrees cols d.cols ∧ LabelsFrom rowNames rn ∧
        LabelsFrom colNames cn ∧
        m = if opts.transpose then (⟨d.rows, d.cols, rn, cn, d⟩ : NamedMatrix).transpose
          else ⟨d.rows, d.cols, rn, cn, d⟩ := by
  cases data with
  | none => simp [ReadAnswers]
  | some t => simp [ReadAnswers]

theorem ReadAnswers.shape {opts : ReadOptions} {answers : List (Option Tag)} {m : NamedMatrix}
    (h : ReadAnswers opts answers m) : m.data.rows = m.nrow ∧ m.data.cols = m.ncol := by
  match answers, h with
  | [some _, _, _, _, _], ⟨d, rn, cn, _, _, _, _, _, hm⟩ =>
    subst hm
    by_cases hT : opts.transpose <;> simp [hT, NamedMatrix.transpose, Matrix.transpose]

theorem CountAgrees.not_matrix {t : Tag} {n : Nat} (h : CountAgrees (some t) n) (d : Matrix) :
    t.data ≠ .floatMatrix d := by
  obtain ⟨v, hv, -⟩ := h t rfl
  rw [hv]
  exact fun hEq => by cases hEq

theorem LabelsFrom.not_matrix {t : Tag} {names : List String} (h : LabelsFrom (some t) names)
    (d : Matrix) : t.data ≠ .floatMatrix d := by
  obtain ⟨s, hs, -⟩ := h
  rw [hs]
  exact fun hEq => by cases hEq

theorem ReadAnswers.kind_apart {opts : ReadOptions} {f : Int32 → Option Tag} {k : Int32}
    {m : NamedMatrix} (h : ReadAnswers opts ((readKinds k).map f) m) :
    k ≠ Kind.nrow ∧ k ≠ Kind.ncol ∧ k ≠ Kind.rowNames ∧ k ≠ Kind.colNames := by
  simp only [readKinds, List.map_cons, List.map_nil] at h
  obtain ⟨t, d, rn, cn, hData, hFloat, hRows, hCols, hRn, hCn, -⟩ := readAnswers_iff.mp h
  refine ⟨?_, ?_, ?_, ?_⟩
  · rintro rfl
    exact (hData ▸ hRows).not_matrix d hFloat
  · rintro rfl
    exact (hData ▸ hCols).not_matrix d hFloat
  · rintro rfl
    exact (hData ▸ hRn).not_matrix d hFloat
  · rintro rfl
    exact (hData ▸ hCn).not_matrix d hFloat

section

variable {ρ : Type} [TagRead ρ]

/-- The searches of block `b` for the kinds `ks`, made one after another from state `r`, answer
`answers` and end in state `r'`. -/
def Searches (b : Node) : List Int32 → List (Option Tag) → ρ → ρ → Prop
  | [], [], r, r' => r' = r
  | k :: ks, o :: os, r, r' =>
    ∃ r₁, (TagRead.findTag b k).run r = .ok o r₁ ∧ Searches b ks os r₁ r'
  | _, _, _, _ => False

theorem Tag.asInt_eq_ok_iff {t : Tag} {v : Int32} : t.asInt = .ok v ↔ t.data = .int v := by
  unfold Tag.asInt
  split <;> simp_all

theorem Tag.asStr_eq_ok_iff {t : Tag} {s : String} : t.asStr = .ok s ↔ t.data = .string s := by
  unfold Tag.asStr
  split <;> simp_all

theorem Tag.asFloatMatrix_eq_ok_iff {t : Tag} {d : Matrix} :
    t.asFloatMatrix = .ok d ↔ t.data = .floatMatrix d := by
  unfold Tag.asFloatMatrix
  split <;> simp_all

theorem checkCount_eq_ok_iff {n : Node} {κ : Int32} {axis : Axis} {count : Nat} {r r' : ρ} :
    (checkCount n κ axis count : EStateM MatrixError ρ Unit).run r = .ok () r' ↔
      ∃ o, (TagRead.findTag n κ).run r = .ok o r' ∧ CountAgrees o count := by
  simp only [checkCount, run_bind_eq_ok_iff, run_adaptExcept_eq_ok_iff]
  constructor
  · rintro ⟨o, r₁, hFind, hRest⟩
    cases o with
    | none =>
      cases hRest
      exact ⟨none, hFind, by simp [CountAgrees]⟩
    | some t =>
      cases hInt : t.asInt with
      | error e => simp only [hInt, EStateM.run_throw, reduceCtorEq] at hRest
      | ok v =>
        by_cases hv : 0 ≤ v ∧ v.toInt.toNat = count
        · simp only [hInt, if_pos hv, EStateM.run_pure, EStateM.Result.ok.injEq] at hRest
          refine ⟨some t, hRest.2 ▸ hFind, fun t' ht' => ⟨v, ?_, ?_⟩⟩
          · cases ht'
            exact Tag.asInt_eq_ok_iff.mp hInt
          · have hNonneg : 0 ≤ v.toInt := Int32.le_iff_toInt_le.mp hv.1
            omega
        · simp only [hInt, if_neg hv, EStateM.run_throw, reduceCtorEq] at hRest
  · rintro ⟨o, hFind, hAgrees⟩
    refine ⟨o, r', hFind, ?_⟩
    cases o with
    | none => rfl
    | some t =>
      obtain ⟨v, hData, hv⟩ := hAgrees t rfl
      have hChecked : 0 ≤ v ∧ v.toInt.toNat = count := by
        refine ⟨Int32.le_iff_toInt_le.mpr (by simp [hv]), by omega⟩
      simp only [Tag.asInt_eq_ok_iff.mpr hData, if_pos hChecked]
      rfl

theorem readNames_eq_ok_iff {n : Node} {κ : Int32} {names : List String} {r r' : ρ} :
    (readNames n κ : EStateM MatrixError ρ (List String)).run r = .ok names r' ↔
      ∃ o, (TagRead.findTag n κ).run r = .ok o r' ∧ LabelsFrom o names := by
  simp only [readNames, run_bind_eq_ok_iff, run_adaptExcept_eq_ok_iff]
  constructor
  · rintro ⟨o, r₁, hFind, hRest⟩
    cases o with
    | none =>
      simp only [EStateM.run_pure, EStateM.Result.ok.injEq] at hRest
      obtain ⟨rfl, rfl⟩ := hRest
      exact ⟨none, hFind, rfl⟩
    | some t =>
      cases hStr : t.asStr with
      | error e =>
        simp only [hStr] at hRest
        cases hRest
      | ok s =>
        simp only [hStr, EStateM.run_pure, EStateM.Result.ok.injEq] at hRest
        obtain ⟨rfl, rfl⟩ := hRest
        exact ⟨some t, hFind, s, Tag.asStr_eq_ok_iff.mp hStr, rfl⟩
  · rintro ⟨o, hFind, hLabels⟩
    refine ⟨o, r', hFind, ?_⟩
    cases o with
    | none =>
      cases hLabels
      rfl
    | some t =>
      obtain ⟨s, hData, rfl⟩ := hLabels
      simp only [Tag.asStr_eq_ok_iff.mpr hData]
      rfl

variable [Journal ρ]

theorem readNamedMatrix_located_eq_ok {n b : Node} {k : Int32} {opts : ReadOptions}
    (hb : n.locateNamed? k = some b) {r r' : ρ} {res : Option NamedMatrix}
    (h : (readNamedMatrix n k opts).run r = .ok res r') :
    ∃ m, res = some m ∧ ∃ (answers : List (Option Tag)) (r₅ : ρ) (note : Note),
      Searches b (readKinds k) answers r r₅ ∧
      ReadAnswers opts answers m ∧ note.level = .debug ∧ r' = Journal.note r₅ note := by
  simp only [readNamedMatrix, hb, run_bind_eq_ok_iff, run_adaptExcept_eq_ok_iff] at h
  obtain ⟨o, r₁, hData, h⟩ := h
  cases o with
  | none =>
    simp only [run_bind_eq_ok_iff] at h
    obtain ⟨_, _, hThrow, -⟩ := h
    cases hThrow
  | some td =>
    cases hT : td.asFloatMatrix with
    | error e =>
      simp only [hT, run_bind_eq_ok_iff] at h
      obtain ⟨_, _, hThrow, -⟩ := h
      cases hThrow
    | ok d =>
      simp only [hT, run_bind_eq_ok_iff, EStateM.run_pure, EStateM.run_modify] at h
      obtain ⟨_, _, ⟨⟩, _, r₂, hRows, _, r₃, hCols, rn, r₄, hRowNames, cn, r₅, hColNames, _, _, ⟨⟩,
        ⟨⟩⟩ := h
      obtain ⟨oR, hR, aR⟩ := checkCount_eq_ok_iff.mp hRows
      obtain ⟨oC, hC, aC⟩ := checkCount_eq_ok_iff.mp hCols
      obtain ⟨oRN, hRN, lRN⟩ := readNames_eq_ok_iff.mp hRowNames
      obtain ⟨oCN, hCN, lCN⟩ := readNames_eq_ok_iff.mp hColNames
      refine ⟨_, rfl, [some td, oR, oC, oRN, oCN], r₅, _,
        ⟨r₁, hData, r₂, hR, r₃, hC, r₄, hRN, r₅, hCN, rfl⟩,
        ⟨d, rn, cn, Tag.asFloatMatrix_eq_ok_iff.mp hT, aR, aC, lRN, lCN, rfl⟩, rfl, rfl⟩

theorem readNamedMatrix_ok_of_searches {n b : Node} {k : Int32} {opts : ReadOptions}
    (hb : n.locateNamed? k = some b) {r r₅ : ρ} {answers : List (Option Tag)} {m : NamedMatrix}
    (hSearch : Searches b (readKinds k) answers r r₅) (hAnswers : ReadAnswers opts answers m) :
    ∃ r', (readNamedMatrix n k opts).run r = .ok (some m) r' := by
  match answers, hSearch, hAnswers with
  | [some td, oR, oC, oRN, oCN], ⟨r₁, hData, r₂, hR, r₃, hC, r₄, hRN, _, hCN, rfl⟩,
      ⟨d, rn, cn, hd, aR, aC, lRN, lCN, hm⟩ =>
    have hRows : (checkCount b Kind.nrow .rows d.rows : EStateM MatrixError ρ Unit).run r₁ =
        .ok () r₂ := checkCount_eq_ok_iff.mpr ⟨oR, hR, aR⟩
    have hCols : (checkCount b Kind.ncol .columns d.cols : EStateM MatrixError ρ Unit).run r₂ =
        .ok () r₃ := checkCount_eq_ok_iff.mpr ⟨oC, hC, aC⟩
    have hRowNames := readNames_eq_ok_iff.mpr ⟨oRN, hRN, lRN⟩
    have hColNames := readNames_eq_ok_iff.mpr ⟨oCN, hCN, lCN⟩
    subst hm
    simp only [readNamedMatrix, hb, EStateM.run_bind, adaptExcept_run_of_ok hData,
      Tag.asFloatMatrix_eq_ok_iff.mpr hd, EStateM.run_pure, hRows, hCols, hRowNames, hColNames,
      EStateM.run_modify]
    exact ⟨_, rfl⟩

end

/-! ## Reads on a watched source -/

namespace Watched

variable {ρ : Type} [TagRead ρ]

theorem searches_events {b : Node} {ks : List Int32} {os : List (Option Tag)}
    {t t' : Watched ρ} (h : Searches b ks os t t') :
    Searches b ks os t.inner t'.inner ∧
      t'.events = t.events ++ List.zipWith (fun κ o => ReadEvent.find b κ (.ok o)) ks os := by
  induction ks generalizing os t with
  | nil =>
    cases os with
    | nil =>
      have hSame : t' = t := h
      subst hSame
      exact ⟨rfl, by simp⟩
    | cons o os => exact h.elim
  | cons κ ks ih =>
    cases os with
    | nil => exact h.elim
    | cons o os =>
      obtain ⟨t₁, hFind, hRest⟩ := h
      obtain ⟨hInner, hEvents⟩ := findTag_run_ok hFind
      obtain ⟨hSearch, hLater⟩ := ih hRest
      refine ⟨⟨t₁.inner, hInner, hSearch⟩, ?_⟩
      rw [hLater, hEvents, List.zipWith_cons_cons, List.append_assoc, List.singleton_append]

theorem simulates_checkCount (n : Node) (κ : Int32) (axis : Axis) (count : Nat) :
    Simulates (checkCount n κ axis count : EStateM MatrixError (Watched ρ) Unit)
      (checkCount n κ axis count) := by
  unfold checkCount
  refine ((simulates_findTag n κ).adaptExcept _).bind fun o => ?_
  cases o with
  | none => exact .pure _
  | some t =>
    dsimp only
    cases t.asInt with
    | error e => exact .throw _
    | ok v =>
      dsimp only
      by_cases hv : 0 ≤ v ∧ v.toInt.toNat = count
      · simp only [if_pos hv]
        exact .pure _
      · simp only [if_neg hv]
        exact .throw _

theorem simulates_readNames (n : Node) (κ : Int32) :
    Simulates (readNames n κ : EStateM MatrixError (Watched ρ) (List String)) (readNames n κ) := by
  unfold readNames
  refine ((simulates_findTag n κ).adaptExcept _).bind fun o => ?_
  cases o with
  | none => exact .pure _
  | some t =>
    dsimp only
    cases t.asStr with
    | error e => exact .throw _
    | ok s => exact .pure _

theorem confined_checkCount (b : Node) (κ : Int32) (axis : Axis) (count : Nat) :
    Confined b (checkCount b κ axis count : EStateM MatrixError (Watched ρ) Unit) := by
  unfold checkCount
  refine ((confined_findTag b κ).adaptExcept _).bind fun o => ?_
  cases o with
  | none => exact .pure _ _
  | some t =>
    dsimp only
    cases t.asInt with
    | error e => exact .throw _ _
    | ok v =>
      dsimp only
      by_cases hv : 0 ≤ v ∧ v.toInt.toNat = count
      · simp only [if_pos hv]
        exact .pure _ _
      · simp only [if_neg hv]
        exact .throw _ _

theorem confined_readNames (b : Node) (κ : Int32) :
    Confined b (readNames b κ : EStateM MatrixError (Watched ρ) (List String)) := by
  unfold readNames
  refine ((confined_findTag b κ).adaptExcept _).bind fun o => ?_
  cases o with
  | none => exact .pure _ _
  | some t =>
    dsimp only
    cases t.asStr with
    | error e => exact .throw _ _
    | ok s => exact .pure _ _

variable [Journal ρ]

theorem simulates_readNamedMatrix (n : Node) (k : Int32) (opts : ReadOptions) :
    Simulates (readNamedMatrix n k opts : EStateM MatrixError (Watched ρ) (Option NamedMatrix))
      (readNamedMatrix n k opts) := by
  unfold readNamedMatrix
  cases n.locateNamed? k with
  | none => exact (simulates_note _).bind fun _ => .pure _
  | some b =>
    dsimp only
    refine ((simulates_findTag b k).adaptExcept _).bind fun o => ?_
    rcases o with _ | t
    on_goal 2 =>
      dsimp only
      cases t.asFloatMatrix
    on_goal 1 => refine (Simulates.throw _).bind fun d => ?_
    on_goal 2 => refine (Simulates.throw _).bind fun d => ?_
    on_goal 3 => refine (Simulates.pure _).bind fun d => ?_
    all_goals
      exact (simulates_checkCount _ _ _ _).bind fun _ => (simulates_checkCount _ _ _ _).bind fun _ =>
        (simulates_readNames _ _).bind fun _ => (simulates_readNames _ _).bind fun _ =>
          (simulates_note _).bind fun _ => .pure _

theorem confined_readNamedMatrix {n b : Node} {k : Int32} (hb : n.locateNamed? k = some b)
    (opts : ReadOptions) :
    Confined b (readNamedMatrix n k opts : EStateM MatrixError (Watched ρ) (Option NamedMatrix)) := by
  unfold readNamedMatrix
  rw [hb]
  dsimp only
  refine ((confined_findTag b k).adaptExcept _).bind fun o => ?_
  rcases o with _ | t
  on_goal 2 =>
    dsimp only
    cases t.asFloatMatrix
  on_goal 1 => refine (Confined.throw _ _).bind fun d => ?_
  on_goal 2 => refine (Confined.throw _ _).bind fun d => ?_
  on_goal 3 => refine (Confined.pure _ _).bind fun d => ?_
  all_goals
    exact (confined_checkCount _ _ _ _).bind fun _ => (confined_checkCount _ _ _ _).bind fun _ =>
      (confined_readNames _ _).bind fun _ => (confined_readNames _ _).bind fun _ =>
        (confined_note _ _).bind fun _ => .pure _ _

end Watched

/-! ## The read, on any source -/

section

variable {ρ : Type} [TagRead ρ] [Journal ρ]

theorem Watched.readNamedMatrix_ok_events {node b : Node} {k : Int32} {opts : ReadOptions}
    (hb : node.Locates k b) {r : ρ} {m : Option NamedMatrix} {t : Watched ρ}
    (hRes : (readNamedMatrix node k opts).run (Watched.new r) = .ok m t) :
    ∃ m', m = some m' ∧ m'.data.rows = m'.nrow ∧ m'.data.cols = m'.ncol ∧
      ∃ (answers : List (Option Tag)) (note : Note), ReadAnswers opts answers m' ∧
        note.level = .debug ∧
        t.events = List.zipWith (fun κ o => ReadEvent.find b κ (.ok o)) (readKinds k) answers ++
          [.note note] := by
  obtain ⟨m', rfl, answers, t₅, note, hSearch, hAnswers, hLevel, rfl⟩ :=
    readNamedMatrix_located_eq_ok (Node.locateNamed?_eq_some_iff.mpr hb) hRes
  obtain ⟨-, hEvents⟩ := Watched.searches_events hSearch
  refine ⟨m', rfl, (ReadAnswers.shape hAnswers).1, (ReadAnswers.shape hAnswers).2, answers, note,
    hAnswers, hLevel, ?_⟩
  show t₅.events ++ [.note note] = _
  rw [hEvents]
  rfl

/-- What a read of kind `k` at `node` does on any tag source, watched. It does to the inner
source what it does on that source itself. It gives nothing exactly when `node` locates no
block, and then it has made no search and left one `info` note. When `node` locates a block,
every search the read makes is a search of that block; a success made the five searches in
order, with answers that give the matrix returned, whose counts are those of its data, and then
left one debug note. -/
theorem read_searches_located_block (node : Node) (k : Int32) (opts : ReadOptions) (r : ρ) :
    let res := (readNamedMatrix node k opts).run (Watched.new r)
    let absent : Note := ⟨.info, .matrixRead,
      s!"{opts.indent}Desired named matrix (kind = {k.toInt}) not available"⟩
    Watched.project res = (readNamedMatrix node k opts).run r ∧
    ((∃ t, res = .ok none t) ↔ ∀ b, ¬ node.Locates k b) ∧
    ((∀ b, ¬ node.Locates k b) → res = .ok none ⟨Journal.note r absent, [.note absent]⟩) ∧
    ∀ b, node.Locates k b →
      (∀ ev ∈ (resultState res).events, ev.Within b) ∧
      ∀ m t, res = .ok m t → ∃ m', m = some m' ∧ m'.data.rows = m'.nrow ∧
        m'.data.cols = m'.ncol ∧ ∃ (answers : List (Option Tag)) (note : Note), ReadAnswers opts answers m' ∧
          note.level = .debug ∧
          t.events = List.zipWith (fun κ o => ReadEvent.find b κ (.ok o)) (readKinds k) answers ++
            [.note note] := by
  intro res absent
  have hAbsent : (∀ b, ¬ node.Locates k b) →
      res = .ok none ⟨Journal.note r absent, [.note absent]⟩ := fun hNone =>
    readNamedMatrix_of_locate_none opts (Node.locateNamed?_eq_none_iff.mpr hNone) _
  refine ⟨Watched.simulates_readNamedMatrix node k opts _, ⟨?_, fun hNone => ⟨_, hAbsent hNone⟩⟩,
    hAbsent, fun b hb => ⟨?_, fun m t hRes => Watched.readNamedMatrix_ok_events hb hRes⟩⟩
  · rintro ⟨t, hRes⟩ b hb
    obtain ⟨m', hm, -⟩ := Watched.readNamedMatrix_ok_events hb hRes
    cases hm
  · exact Watched.confined_readNamedMatrix (Node.locateNamed?_eq_some_iff.mpr hb) opts _
      (by simp [Watched.new])

end

end Fiff
